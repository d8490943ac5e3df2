import SdkSmith.Toml.Lexeme
import SdkSmith.Toml.Node

/-!
TOML text as a value. A document is a row of headers and of assignments to the table of the last
header.
-/
namespace SdkSmith.Toml

/-- How deep arrays, inline tables and keys may be nested. -/
def depthLimit : Nat := 80

/-- How many parts a key may have. -/
def keyLimit : Nat := 79

/-- One part of a key. -/
def keyPart? (s : List Char) : Option (String × List Char) :=
  match s with
  | '"' :: r => (basic? (s.length + 1) r).map fun (cs, r) => (String.ofList cs, r)
  | '\'' :: r => (literal? r).map fun (cs, r) => (String.ofList cs, r)
  | _ =>
    let word := s.takeWhile fun c => c.isAlphanum || c == '-' || c == '_'
    if word.isEmpty then none else some (String.ofList word, s.drop word.length)

/-- A key of one part or more, with blanks around its dots. -/
def key? : Nat → List Char → Option (List String × List Char)
  | 0, _ => none
  | fuel + 1, s => do
    let (k, r) ← keyPart? (skipSpace s)
    match skipSpace r with
    | '.' :: r =>
      let (ks, r) ← key? fuel r
      return (k :: ks, r)
    | r => return ([k], r)

mutual

/-- A value at a depth of nesting. -/
def value? (fuel depth : Nat) (s : List Char) : Option (Node × List Char) :=
  match fuel with
  | 0 => none
  | fuel + 1 =>
    match s with
    | '"' :: _ => (string? s).map fun (t, r) => (.value (.string t), r)
    | '\'' :: _ => (string? s).map fun (t, r) => (.value (.string t), r)
    | '[' :: r =>
      if depthLimit ≤ depth + 1 then none
      else (items? fuel (depth + 1) r).map fun (ns, r) => (.value (.array (ns.map Node.json)), r)
    | '\x7b' :: r =>
      if depthLimit ≤ depth + 1 then none
      else (inline? fuel (depth + 1) r).map fun (ms, r) =>
        (.value (Node.json (.table .header ms)), r)
    | _ => (plain? s).map fun (v, r) => (.value v, r)

/-- The items of an array up to its end. -/
def items? (fuel depth : Nat) (s : List Char) : Option (List Node × List Char) :=
  match fuel with
  | 0 => none
  | fuel + 1 =>
    match skipLines? (s.length + 1) s with
    | none => none
    | some (']' :: r) => some ([], r)
    | some s =>
      match value? fuel depth s with
      | none => none
      | some (n, r) =>
        match skipLines? (r.length + 1) r with
        | some (',' :: r) => (items? fuel depth r).map fun (ns, r) => (n :: ns, r)
        | some (']' :: r) => some ([n], r)
        | _ => none

/-- The members of an inline table up to its end. -/
def inline? (fuel depth : Nat) (s : List Char) : Option (Members × List Char) :=
  match fuel with
  | 0 => none
  | fuel + 1 =>
    match skipSpace s with
    | '\x7d' :: r => some ([], r)
    | _ => pairs? fuel depth [] s

/-- The members of an inline table after those in `t`. -/
def pairs? (fuel depth : Nat) (t : Members) (s : List Char) : Option (Members × List Char) :=
  match fuel with
  | 0 => none
  | fuel + 1 =>
    match key? keyLimit s with
    | some (ks, '=' :: r) =>
      match value? fuel depth (skipSpace r) with
      | none => none
      | some (n, r) =>
        match assign n ks t with
        | none => none
        | some t =>
          match skipSpace r with
          | ',' :: r => pairs? fuel depth t r
          | '\x7d' :: r => some (t, r)
          | _ => none
    | _ => none

end

/-- The text after the rest of a line, in which only a comment may stand. -/
def endLine? (s : List Char) : Option (List Char) := do
  let s ← skipComment? (skipSpace s)
  match s with
  | [] => return []
  | _ => newline? s

/-- A document being read: all of its tables, and the keys of the last header. -/
structure State where
  root : Members
  header : List String

/-- Reads one header or assignment. -/
def statement? (st : State) (s : List Char) : Option (State × List Char) :=
  match s with
  | '[' :: '[' :: r => do
    let (ks, r) ← key? keyLimit r
    match r, ks.reverse with
    | ']' :: ']' :: r, k :: before =>
      let root ← along (openItem k) before.reverse st.root
      let r ← endLine? r
      return (⟨root, ks⟩, r)
    | _, _ => none
  | '[' :: r => do
    let (ks, r) ← key? keyLimit r
    match r, ks.reverse with
    | ']' :: r, k :: before =>
      let root ← along (openTable k) before.reverse st.root
      let r ← endLine? r
      return (⟨root, ks⟩, r)
    | _, _ => none
  | _ => do
    let (ks, r) ← key? keyLimit s
    match r with
    | '=' :: r =>
      let r := skipSpace r
      let (n, r) ← value? (2 * r.length + 2) 0 r
      let root ← along (assign n ks) st.header st.root
      let r ← endLine? r
      return (⟨root, st.header⟩, r)
    | _ => none

/-- Reads headers and assignments to the end of the text. -/
def document? : Nat → State → List Char → Option Members
  | 0, _, _ => none
  | fuel + 1, st, s => do
    let s ← skipLines? (s.length + 1) s
    if s.isEmpty then return st.root
    let (st, r) ← statement? st s
    document? fuel st r

/-- The value of a TOML text; the keys of its tables are sorted. -/
def parse? (source : String) : Option Json :=
  let s := match source.toList with
    | '\uFEFF' :: r => r
    | s => s
  (document? (s.length + 1) ⟨[], []⟩ s).map fun t => Node.json (.table .header t)

end SdkSmith.Toml
