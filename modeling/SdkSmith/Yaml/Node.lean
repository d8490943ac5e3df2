import SdkSmith.Yaml.Token

/-!
The nodes of a YAML document. An alias is a node of its own; what it stands for is found later.
-/
namespace SdkSmith.Yaml

/-- The anchor and the tag of a node. -/
structure Props where
  anchor : Option String
  tag : Option String
deriving DecidableEq, Repr

/-- A node. -/
inductive Node
  | aliasOf (name : String)
  | scalar (props : Props) (text : String) (isPlain : Bool)
  | list (props : Props) (items : List Node)
  | record (props : Props) (members : List (Node × Node))
deriving Repr, Inhabited

namespace Node

/-- The node that stands where nothing is written. -/
def empty (props : Props) : Node := .scalar props "" true

/-- The node for nothing, without anchor and tag. -/
def nothing : Node := empty ⟨none, none⟩

mutual

/-- The number of nodes, with the ends of lists and records. -/
def size : Node → Nat
  | .aliasOf _ | .scalar _ _ _ => 1
  | .list _ items => 2 + sizeItems items
  | .record _ members => 2 + sizeMembers members

/-- The number of nodes in items. -/
def sizeItems : List Node → Nat
  | [] => 0
  | n :: ns => size n + sizeItems ns

/-- The number of nodes in members. -/
def sizeMembers : List (Node × Node) → Nat
  | [] => 0
  | (k, v) :: ms => size k + size v + sizeMembers ms

end

end Node

/-- The shorthands of tags by handle. -/
abbrev Shorthands := List (String × String)

/-- The shorthands that every document has. -/
def standardShorthands : Shorthands := [("!", "!"), ("!!", "tag:yaml.org,2002:")]

/-- The tag that a handle and the rest make. -/
def fullTag (shorthands : Shorthands) (handle rest : String) : Option String :=
  if handle.isEmpty then some rest else (shorthands.lookup handle).map (· ++ rest)

/-- The anchor and the tag at the front, in either order, at most one of each. -/
def takeProps (shorthands : Shorthands) (ts : List Token) : Option (Props × List Token) :=
  match ts with
  | .anchor a :: .tag h r :: ts | .tag h r :: .anchor a :: ts =>
    (fullTag shorthands h r).map fun t => (⟨some a, some t⟩, ts)
  | .anchor a :: ts => some (⟨some a, none⟩, ts)
  | .tag h r :: ts => (fullTag shorthands h r).map fun t => (⟨none, some t⟩, ts)
  | ts => some (⟨none, none⟩, ts)

/-- Whether nothing is written for an item of a block. -/
def endsItem : Option Token → Bool
  | none | some .item | some .blockEnd => true
  | _ => false

/-- Whether nothing is written for a key or value of a block, or for an item of a list without a
block of its own. -/
def endsMember : Option Token → Bool
  | none | some .key | some .value | some .blockEnd => true
  | _ => false

/-- Whether nothing is written for a key or value between brackets. -/
def endsEntry (close : Token) (t : Option Token) : Bool :=
  t == none || t == some .comma || t == some close

mutual

/-- The node at the front. Blocks are allowed outside of brackets; items without a block of their
own only right under a key. -/
def parseNode (sh : Shorthands) (inBlock isLoose : Bool) :
    Nat → List Token → Option (Node × List Token)
  | 0, _ => none
  | fuel + 1, ts =>
    match ts with
    | .aliasOf name :: ts => some (.aliasOf name, ts)
    | ts => do
      let (p, ts) ← takeProps sh ts
      match ts with
      | .item :: _ =>
        if isLoose then
          let (items, ts) ← parseLoose sh fuel ts
          return (.list p items, ts)
        else if p.anchor.isSome || p.tag.isSome then return (.empty p, ts)
        else none
      | .scalar text isPlain :: ts =>
        let p := if p.tag = some "!" then { p with tag := none } else p
        return (.scalar p text isPlain, ts)
      | .sequenceOpen :: ts =>
        let (items, ts) ← parseEntries sh true fuel ts
        return (.list p items, ts)
      | .mappingOpen :: ts =>
        let (members, ts) ← parsePairs sh true fuel ts
        return (.record p members, ts)
      | .sequenceBlock :: rest =>
        if inBlock then
          let (items, ts) ← parseItems sh fuel rest
          return (.list p items, ts)
        else if p.anchor.isSome || p.tag.isSome then return (.empty p, ts)
        else none
      | .mappingBlock :: rest =>
        if inBlock then
          let (members, ts) ← parseMembers sh fuel rest
          return (.record p members, ts)
        else if p.anchor.isSome || p.tag.isSome then return (.empty p, ts)
        else none
      | ts => if p.anchor.isSome || p.tag.isSome then return (.empty p, ts) else none

/-- The items of a block, and what follows its end. -/
def parseItems (sh : Shorthands) : Nat → List Token → Option (List Node × List Token)
  | 0, _ => none
  | fuel + 1, ts =>
    match ts with
    | .item :: ts => do
      let (n, ts) ←
        if endsItem ts.head? then some (Node.nothing, ts) else parseNode sh true false fuel ts
      let (ns, ts) ← parseItems sh fuel ts
      return (n :: ns, ts)
    | .blockEnd :: ts => some ([], ts)
    | _ => none

/-- The items of a list without a block of its own, and what follows them. -/
def parseLoose (sh : Shorthands) : Nat → List Token → Option (List Node × List Token)
  | 0, _ => none
  | fuel + 1, ts =>
    match ts with
    | .item :: ts => do
      let (n, ts) ←
        if endsMember ts.head? || ts.head? == some .item then some (Node.nothing, ts)
        else parseNode sh true false fuel ts
      let (ns, ts) ← parseLoose sh fuel ts
      return (n :: ns, ts)
    | ts => some ([], ts)

/-- The members of a block, and what follows its end. -/
def parseMembers (sh : Shorthands) : Nat → List Token → Option (List (Node × Node) × List Token)
  | 0, _ => none
  | fuel + 1, ts =>
    match ts with
    | .key :: ts => do
      let (k, ts) ←
        if endsMember ts.head? then some (Node.nothing, ts) else parseNode sh true true fuel ts
      let (v, ts) ← parseValue sh fuel ts
      let (ms, ts) ← parseMembers sh fuel ts
      return ((k, v) :: ms, ts)
    | .value :: _ => none
    | .blockEnd :: ts => some ([], ts)
    | _ => none

/-- The value of a member of a block. -/
def parseValue (sh : Shorthands) : Nat → List Token → Option (Node × List Token)
  | 0, _ => none
  | fuel + 1, ts =>
    match ts with
    | .value :: ts =>
      if endsMember ts.head? then some (Node.nothing, ts) else parseNode sh true true fuel ts
    | ts => some (Node.nothing, ts)

/-- The value of an entry between brackets that close with a token. -/
def parseEntryValue (sh : Shorthands) (close : Token) :
    Nat → List Token → Option (Node × List Token)
  | 0, _ => none
  | fuel + 1, ts =>
    match ts with
    | .value :: ts =>
      if endsEntry close ts.head? then some (Node.nothing, ts) else parseNode sh false false fuel ts
    | ts => some (Node.nothing, ts)

/-- The entries of a list between brackets. An entry with the mark of a key is a record of one
member. -/
def parseEntries (sh : Shorthands) (isFirst : Bool) :
    Nat → List Token → Option (List Node × List Token)
  | 0, _ => none
  | fuel + 1, ts =>
    match ts with
    | .sequenceClose :: ts => some ([], ts)
    | ts => do
      let ts ← if isFirst then some ts else
        match ts with
        | .comma :: ts => some ts
        | _ => none
      match ts with
      | .sequenceClose :: ts => return ([], ts)
      | .key :: ts =>
        let (k, ts) ←
          if ts.head? == some .value || endsEntry .sequenceClose ts.head? then
            some (Node.nothing, ts.tail)
          else parseNode sh false false fuel ts
        let (v, ts) ← parseEntryValue sh .sequenceClose fuel ts
        let (ns, ts) ← parseEntries sh false fuel ts
        return (.record ⟨none, none⟩ [(k, v)] :: ns, ts)
      | ts =>
        let (n, ts) ← parseNode sh false false fuel ts
        let (ns, ts) ← parseEntries sh false fuel ts
        return (n :: ns, ts)

/-- The members of a record between brackets. An entry without the mark of a key is a key alone. -/
def parsePairs (sh : Shorthands) (isFirst : Bool) :
    Nat → List Token → Option (List (Node × Node) × List Token)
  | 0, _ => none
  | fuel + 1, ts =>
    match ts with
    | .mappingClose :: ts => some ([], ts)
    | ts => do
      let ts ← if isFirst then some ts else
        match ts with
        | .comma :: ts => some ts
        | _ => none
      match ts with
      | .mappingClose :: ts => return ([], ts)
      | .key :: ts =>
        let (k, ts) ←
          if ts.head? == some .value || endsEntry .mappingClose ts.head? then
            some (Node.nothing, ts)
          else parseNode sh false false fuel ts
        let (v, ts) ← parseEntryValue sh .mappingClose fuel ts
        let (ms, ts) ← parsePairs sh false fuel ts
        return ((k, v) :: ms, ts)
      | ts =>
        let (k, ts) ← parseNode sh false false fuel ts
        let (ms, ts) ← parsePairs sh false fuel ts
        return ((k, Node.nothing) :: ms, ts)

end

/-- The shorthands that the directives at the front make, and what follows them. No handle is given
twice, and the version is given once. -/
def directives (hasVersion : Bool) (own : Shorthands) :
    List Token → Option (Shorthands × List Token)
  | .version major minor :: ts =>
    if hasVersion || major ≠ 1 || (minor ≠ 1 && minor ≠ 2) then none else directives true own ts
  | .shorthand handle full :: ts =>
    if (own.lookup handle).isSome then none else directives hasVersion ((handle, full) :: own) ts
  | ts => some (own ++ standardShorthands, ts)

/-- The content of a document with its first mark. -/
def markedContent (sh : Shorthands) (fuel : Nat) (ts : List Token) : Option (Node × List Token) :=
  match ts with
  | [] | .documentStart :: _ | .documentEnd :: _ | .version _ _ :: _ | .shorthand _ _ :: _ =>
    some (Node.nothing, ts)
  | ts => parseNode sh true false fuel ts

/-- The only document, or none at all; of several there is no reading. -/
def parseDocument (ts : List Token) : Option (Option Node) :=
  let fuel := 2 * ts.length + 2
  match ts with
  | [] => some none
  | ts => do
    let (n, ts) ← match ts with
      | .version _ _ :: _ | .shorthand _ _ :: _ | .documentStart :: _ => do
        let (sh, ts) ← directives false [] ts
        match ts with
        | .documentStart :: ts => markedContent sh fuel ts
        | _ => none
      | ts => parseNode standardShorthands true false fuel ts
    if (ts.dropWhile (· == .documentEnd)).isEmpty then return some n else none

end SdkSmith.Yaml
