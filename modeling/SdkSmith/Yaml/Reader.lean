import SdkSmith.Yaml.Value

/-!
Reading YAML text as a document. An alias stands for the last node with its anchor's number, where
a number counts the names of anchors seen before. A node that contains itself cannot be read, nor
can one that aliases blow up.
-/
namespace SdkSmith.Yaml
open Document (Datum Scalar)

/-- A node as a document, with the number of aliases in it, those within aliases included. -/
structure Expansion where
  datum : Datum
  aliases : Nat
deriving Repr

/-- The numbers of anchor names, and the nodes by number. -/
structure Anchors where
  numbers : List (String × Nat)
  nodes : List (Nat × Expansion)
deriving Repr

namespace Anchors

/-- No anchors. -/
def none : Anchors := ⟨[], []⟩

/-- Counts the name of an anchor, if there is one, before what stands under it. -/
def count (a : Anchors) (name : Option String) : Option Nat × Anchors :=
  match name with
  | Option.none => (Option.none, a)
  | some name =>
    let n := a.numbers.length
    (some n, { a with numbers := Table.put name n a.numbers })

/-- Keeps the node of an anchor. -/
def keep (a : Anchors) (number : Option Nat) (e : Expansion) : Anchors :=
  match number with
  | Option.none => a
  | some n => { a with nodes := Table.put n e a.nodes }

end Anchors

/-- What an expansion needs to know: the nodes by number, and how many aliases there may be. -/
structure Bounds where
  nodes : List (Nat × Expansion)
  most : Nat

/-- The most lists and records around each other. -/
def depthLimit : Nat := 128

/-- The node that an alias stands for. -/
def aliased (b : Bounds) (a : Anchors) (number : Nat) : Expansion :=
  match (Table.find? number b.nodes).or (Table.find? number a.nodes) with
  | some e => if b.most < e.aliases + 1 then ⟨.unreadable, 1⟩ else ⟨e.datum, e.aliases + 1⟩
  | none => ⟨.unreadable, 1⟩

/-- Whether a list or record may be read as a plain value. -/
def isFree (p : Props) : Bool :=
  !(p.tag.any fun t => t.startsWith "!")

/-- The scalar that a key is; lists and records are none. -/
def keyScalar : Datum → Scalar
  | .scalar s => s
  | _ => ⟨none, false, none, none, false⟩

mutual

/-- A node as a document, inside of so many lists and records. -/
def expand (b : Bounds) (depth : Nat) : Node → Anchors → Option (Expansion × Anchors)
  | .aliasOf name, a => (Table.find? name a.numbers).map fun n => (aliased b a n, a)
  | .scalar p text isPlain, a =>
    let (n, a) := a.count p.anchor
    let e : Expansion := ⟨.scalar (scalarOf p.tag text isPlain), 0⟩
    some (e, a.keep n e)
  | .list p items, a => do
    let (n, a) := a.count p.anchor
    let (ds, k, a) ← expandItems b (depth + 1) items a
    let e : Expansion := ⟨if depth < depthLimit then .list ds (isFree p) else .unreadable, k⟩
    return (e, a.keep n e)
  | .record p members, a => do
    let (n, a) := a.count p.anchor
    let (ms, k, a) ← expandMembers b (depth + 1) members a
    let e : Expansion := ⟨if depth < depthLimit then .record ms (isFree p) else .unreadable, k⟩
    return (e, a.keep n e)

/-- Items as documents, with the number of aliases in them. -/
def expandItems (b : Bounds) (depth : Nat) :
    List Node → Anchors → Option (List Datum × Nat × Anchors)
  | [], a => some ([], 0, a)
  | n :: ns, a => do
    let (e, a) ← expand b depth n a
    let (ds, k, a) ← expandItems b depth ns a
    return (e.datum :: ds, e.aliases + k, a)

/-- Members as documents, with the number of aliases in them. -/
def expandMembers (b : Bounds) (depth : Nat) :
    List (Node × Node) → Anchors → Option (List (Scalar × Datum) × Nat × Anchors)
  | [], a => some ([], 0, a)
  | (key, v) :: ms, a => do
    let (key, a) ← expand b depth key a
    let (v, a) ← expand b depth v a
    let (ds, k, a) ← expandMembers b depth ms a
    return ((keyScalar key.datum, v.datum) :: ds, key.aliases + v.aliases + k, a)

end

/-- The most aliases for each node. -/
def aliasesPerNode : Nat := 100

/-- A node as a document. The first pass finds the nodes by number, the second uses them. -/
def datumOf (n : Node) : Option Datum := do
  let most := aliasesPerNode * n.size
  let (_, a) ← expand ⟨[], most⟩ 0 n .none
  let (e, _) ← expand ⟨a.nodes, most⟩ 0 n .none
  return e.datum

/-- The document that a text is. -/
def read? (source : String) : Option Datum := do
  let cs := source.toList
  let cs := if cs.head? = some '\ufeff' then cs.tail else cs
  match ← parseDocument (← tokens? cs) with
  | none => return .scalar voidScalar
  | some n => datumOf n

end SdkSmith.Yaml
