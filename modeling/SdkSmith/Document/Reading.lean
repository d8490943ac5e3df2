import SdkSmith.Document.Mismatch

/-!
Typed readers of documents. A record is read from named members in any order or from a list of
its fields in order; of several faults the one that comes first in the document is reported, and
missing members come after all faulty ones.
-/
namespace SdkSmith.Document

/-- Reads a document as a value of a type. -/
abbrev Reader (α : Type) := Datum → Except Mismatch α

namespace Reader
variable {α β : Type}

/-- A text. -/
def text : Reader String := fun d =>
  match d with
  | .scalar s => match s.text? with
    | some t => .ok t
    | none => .error (.unexpected d "a string")
  | _ => .error (.unexpected d "a string")

/-- A flag. -/
def flag : Reader Bool := fun d =>
  match d with
  | .scalar s => match s.flag? with
    | some b => .ok b
    | none => .error (.unexpected d "a boolean")
  | _ => .error (.unexpected d "a boolean")

/-- Any plain value. -/
def value : Reader Json := fun d =>
  match d.value? with
  | some v => .ok v
  | none => .error .noValue

/-- Something that may be absent. -/
def optional (r : Reader α) : Reader (Option α) := fun d =>
  match d with
  | .scalar s => if s.isAbsent then .ok none else (r d).map some
  | _ => (r d).map some

/-- A list of things that `r` reads. -/
def list (r : Reader α) : Reader (List α) := fun d =>
  match d with
  | .list items _ => items.mapM r
  | .scalar s => if s.isHollow then .ok [] else .error (.unexpected d "a sequence")
  | _ => .error (.unexpected d "a sequence")

/-- The members of a table, each key a text. -/
def members (r : Reader α) : List (Scalar × Datum) → Except Mismatch (List (String × α))
  | [] => .ok []
  | (k, d) :: ms =>
    match k.text? with
    | none => .error .noValue
    | some key => do
      let v ← r d
      let rest ← members r ms
      return (key, v) :: rest

/-- A table of things that `r` reads. -/
def table (r : Reader α) : Reader (Table α) := fun d =>
  match d with
  | .record ms _ => (members r ms).map Table.ofList
  | .scalar s => if s.isHollow then .ok [] else .error (.unexpected d "a map")
  | _ => .error (.unexpected d "a map")

/-- The first alternative that reads the settled document. -/
def choice (name : String) (first second : Reader α) : Reader α := fun d =>
  match d.settled? with
  | none => .error .noValue
  | some d =>
    match first d with
    | .ok v => .ok v
    | .error _ =>
      match second d with
      | .ok v => .ok v
      | .error _ => .error (.noVariant name)

end Reader

/-- A result, or the first fault with its place among the members. -/
def Placed (α : Type) : Type := Except (Nat × Mismatch) α

namespace Placed
variable {α β : Type}

/-- Of two faults the one that stands first. -/
def earlier (a b : Nat × Mismatch) : Nat × Mismatch :=
  if b.1 < a.1 then b else a

/-- Applies a function to an argument, both read from the same record. -/
def apply : Placed (α → β) → Placed α → Placed β
  | .ok f, .ok x => Except.ok (f x)
  | .error e, .ok _ => Except.error e
  | .ok _, .error e => Except.error e
  | .error a, .error b => Except.error (earlier a b)

/-- The result, unless there is a fault besides. -/
def guarded (fault? : Option (Nat × Mismatch)) (v : Placed α) : Placed α :=
  match fault?, v with
  | none, v => v
  | some a, .ok _ => Except.error a
  | some a, .error b => Except.error (earlier a b)

/-- The result, without the place of a fault. -/
def result : Placed α → Except Mismatch α
  | .ok x => Except.ok x
  | .error (_, m) => Except.error m

instance : Applicative Placed where
  pure x := Except.ok x
  seq f x := apply f (x ())

end Placed

/-- The members of a record by name, each with its place, or a list of fields in order. -/
structure Fields where
  record : String
  names : List String
  given : List (String × Nat × Datum)
  inOrder : Bool
  /-- The places given, from which on missing members are reported. -/
  places : Nat

namespace Fields
variable {α : Type}

/-- The named members that a record knows, each with its place. -/
def named (names : List String) : Nat → List (Scalar × Datum) → List (String × Nat × Datum)
  | _, [] => []
  | i, (k, d) :: ms =>
    let rest := named names (i + 1) ms
    match k.text? with
    | some key => if names.contains key then (key, i, d) :: rest else rest
    | none => rest

/-- The first fault in the keys of a record: one that is no text, or a known one given again. -/
def keyFault? (names seen : List String) : Nat → List (Scalar × Datum) → Option (Nat × Mismatch)
  | _, [] => none
  | i, (k, _) :: ms =>
    match k.text? with
    | none => some (i, .noValue)
    | some key =>
      if names.contains key && seen.contains key then some (i, .duplicateField key)
      else keyFault? names (key :: seen) (i + 1) ms

/-- The place and document of a member. -/
def find? (f : Fields) (name : String) : Option (Nat × Datum) :=
  f.given.lookup name

/-- Reads a member that is there. -/
def readAt (r : Reader α) (place : Nat) (d : Datum) : Placed α :=
  match r d with
  | .ok v => Except.ok v
  | .error m => Except.error (place, m)

/-- The fault of a member that is left out. -/
def missing (f : Fields) (name : String) : Nat × Mismatch :=
  let i := f.names.idxOf name
  if f.inOrder then (i, .tooShort i f.record f.names.length)
  else (f.places + i, .missingField name)

/-- A member that has to be there. -/
def required (f : Fields) (name : String) (r : Reader α) : Placed α :=
  match f.find? name with
  | some (i, d) => readAt r i d
  | none => Except.error (f.missing name)

/-- A member that stands for `other` when left out. -/
def withDefault (f : Fields) (name : String) (other : α) (r : Reader α) : Placed α :=
  match f.find? name with
  | some (i, d) => readAt r i d
  | none => Except.ok other

/-- A member that may be absent, or left out where members are named. -/
def optional (f : Fields) (name : String) (r : Reader α) : Placed (Option α) :=
  match f.find? name with
  | some (i, d) => readAt (Reader.optional r) i d
  | none => if f.inOrder then Except.error (f.missing name) else Except.ok none

end Fields

/-- Reads a record by its members. -/
def Reader.record {α : Type} (name : String) (names : List String) (build : Fields → Placed α) :
    Reader α := fun d =>
  match d with
  | .record ms _ =>
    let given := build ⟨name, names, Fields.named names 0 ms, false, ms.length⟩
    (given.guarded (Fields.keyFault? names [] 0 ms)).result
  | .list items _ =>
    let places := names.zip ((List.range items.length).zip items)
    let given := build ⟨name, names, places, true, items.length⟩
    let fault? :=
      if names.length < items.length then some (names.length, Mismatch.tooLong items.length)
      else none
    (given.guarded fault?).result
  | .scalar s =>
    if s.isHollow then (build ⟨name, names, [], false, 0⟩).result
    else .error (.unexpected d ("struct " ++ name))
  | .unreadable => .error .noValue

end SdkSmith.Document
