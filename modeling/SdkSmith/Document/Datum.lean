import SdkSmith.Json.Value

/-!
A document as typed readers see it. What a scalar means depends on who asks, a text field, a flag
or a free value, so a scalar holds the answer to each question. Both text formats end here.
-/
namespace SdkSmith.Document

/-- A scalar with its reading for each kind of field. -/
structure Scalar where
  /-- What a text field takes. -/
  text? : Option String
  /-- Whether an optional field takes it as left out. -/
  isAbsent : Bool
  /-- What a flag takes. -/
  flag? : Option Bool
  /-- What a free field takes. -/
  value? : Option Json
  /-- Whether it stands for a list or record without members. -/
  isHollow : Bool
deriving Repr

/-- A document; `free` data carry no type of their own and may be read as plain values. -/
inductive Datum
  | scalar (s : Scalar)
  | list (items : List Datum) (free : Bool)
  | record (members : List (Scalar × Datum)) (free : Bool)
  /-- Well formed, but without a value: it may only be passed over. -/
  | unreadable
deriving Repr

namespace Scalar

/-- The readings of a value that is neither a list nor a record. -/
def ofJson (v : Json) : Scalar where
  text? := v.text?
  isAbsent := match v with
    | .null => true
    | _ => false
  flag? := match v with
    | .bool b => some b
    | _ => none
  value? := some v
  isHollow := false

end Scalar

namespace Datum

mutual

/-- A value as a document. -/
def ofJson : Json → Datum
  | .array items => .list (ofItems items) true
  | .object members => .record (ofMembers members) true
  | v => .scalar (Scalar.ofJson v)

/-- Values as documents. -/
def ofItems : List Json → List Datum
  | [] => []
  | v :: vs => ofJson v :: ofItems vs

/-- Members as documents. -/
def ofMembers : List (String × Json) → List (Scalar × Datum)
  | [] => []
  | (k, v) :: ms => (Scalar.ofJson (.string k), ofJson v) :: ofMembers ms

end

mutual

/-- The plain value of a document, if all of it has one. -/
def value? : Datum → Option Json
  | .scalar s => s.value?
  | .list items true => (values? items).map Json.array
  | .record members true => (memberValues? members).map fun ms => Json.object (Table.ofList ms)
  | _ => none

/-- The plain values of documents. -/
def values? : List Datum → Option (List Json)
  | [] => some []
  | d :: ds =>
    match value? d, values? ds with
    | some v, some vs => some (v :: vs)
    | _, _ => none

/-- The plain values of members, whose keys are texts. -/
def memberValues? : List (Scalar × Datum) → Option (List (String × Json))
  | [] => some []
  | (k, d) :: ms =>
    match k.text?, value? d, memberValues? ms with
    | some k, some v, some vs => some ((k, v) :: vs)
    | _, _, _ => none

end

mutual

/-- The document with every scalar reduced to its plain value, as a reader sees it that has to
look ahead. -/
def settled? : Datum → Option Datum
  | .scalar s => s.value?.map fun v => .scalar (Scalar.ofJson v)
  | .list items true => (settledItems? items).map fun ds => .list ds true
  | .record members true => (settledMembers? members).map fun ms => .record ms true
  | _ => none

/-- Items with every scalar reduced to its plain value. -/
def settledItems? : List Datum → Option (List Datum)
  | [] => some []
  | d :: ds =>
    match settled? d, settledItems? ds with
    | some e, some es => some (e :: es)
    | _, _ => none

/-- Members with every scalar reduced to its plain value. -/
def settledMembers? : List (Scalar × Datum) → Option (List (Scalar × Datum))
  | [] => some []
  | (k, d) :: ms =>
    match k.value?, settled? d, settledMembers? ms with
    | some k, some e, some es => some ((Scalar.ofJson k, e) :: es)
    | _, _, _ => none

end

end Datum
end SdkSmith.Document
