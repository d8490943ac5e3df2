import SdkSmith.Api.Schema

/-!
Types read off an example payload. A leaf gives the names of its candidate types, one taken from
the value itself or several written in angle brackets in the place of the value.
-/
namespace SdkSmith.Api

/-- The shape of a payload, with type names at its leaves. -/
inductive Payload
  | leaf (names : List String)
  | array (items : List Payload)
  | object (members : List (String × Payload))
deriving Repr

namespace Payload

/-- The candidates in an annotation such as `<integer, null>`. -/
def candidates (word : String) : List String :=
  let s := Text.trimWhile Text.isBlank word.toList
  let inner := Text.dropEndWhile (· == '>') (s.dropWhile (· == '<'))
  ((Text.pieces (· == ',') inner).map fun t => Text.lower (Text.trim (String.ofList t))).filter
    fun t => !t.isEmpty

/-- The name of a scalar's own type. -/
def typeName : Json → String
  | .null => "null"
  | .bool _ => "boolean"
  | .number (.int _) => "integer"
  | .number (.double _) => "double"
  | .string _ => "string"
  | .array _ => "array"
  | .object _ => "object"

mutual

/-- The shape of a value. -/
def ofJson : Json → Payload
  | .object members => .object (ofMembers members)
  | .array items => .array (ofItems items)
  | .string s => .leaf (if Naming.isTypeAnnotation s then candidates s else ["string"])
  | v => .leaf [typeName v]

/-- The shapes of items. -/
def ofItems : List Json → List Payload
  | [] => []
  | v :: vs => ofJson v :: ofItems vs

/-- The shapes of members. -/
def ofMembers : List (String × Json) → List (String × Payload)
  | [] => []
  | (k, v) :: ms => (k, ofJson v) :: ofMembers ms

end

/-- The type that a candidate's name stands for. -/
def typeOf (name : String) : ValueType :=
  match name with
  | "int" | "integer" | "long" => .int
  | "float" | "double" | "decimal" => .float
  | "number" => .number
  | "bool" | "boolean" => .bool
  | "string" | "date" | "datetime" | "date-time" | "uuid" => .string
  | "array" | "object" => .array
  | _ => .mixed

/-- The type of a payload: that of its first candidate other than null. -/
def type : Payload → ValueType
  | .leaf names =>
    match names.find? (· != "null") with
    | some name => typeOf name
    | none => .mixed
  | _ => .array

/-- Whether null is among the candidates. -/
def nullable : Payload → Bool
  | .leaf names => names.contains "null"
  | _ => false

/-- A payload as a parameter. -/
def toParameter (name : String) (p : Payload) : Parameter :=
  { Parameter.plain name p.type with nullable := p.nullable }

/-- The parameters of a body: one for each member of an object, otherwise a single one. -/
def parameters (p : Payload) : List Parameter :=
  match p with
  | .object members => members.map fun (name, m) => m.toParameter name
  | _ => [p.toParameter "data"]

end Payload
end SdkSmith.Api
