import SdkSmith.Json.Value
import SdkSmith.Naming.Casing

/-!
The types of an API: parameters and schemas. Schemas refer to each other by name, so a table of
them may be cyclic while each schema is a finite tree.
-/
namespace SdkSmith.Api

/-- The type of a parameter or schema; `array` stands for lists and objects. -/
inductive ValueType
  | string
  | int
  | float
  | number
  | bool
  | array
  | mixed
  | named (schema : String)
deriving DecidableEq, Repr, Inhabited

namespace ValueType

/-- The type for a JSON Schema type name with its format. -/
def ofJsonSchema (name : String) (format : Option String) : ValueType :=
  match name with
  | "integer" => .int
  | "number" =>
    match format with
    | some "float" | some "double" => .float
    | some "int32" | some "int64" => .int
    | _ => .number
  | "string" => .string
  | "boolean" => .bool
  | "object" | "array" => .array
  | _ => .mixed

/-- Neither a list nor an object nor a reference. -/
def isScalar : ValueType → Bool
  | .array | .named _ => false
  | _ => true

/-- The schema that a reference names. -/
def schemaName? : ValueType → Option String
  | .named schema => some schema
  | _ => none

end ValueType

/-- One parameter of a request, under its name on the wire. -/
structure Parameter where
  name : String
  type : ValueType
  nullable : Bool
  description : Option String
  default : Option Json
deriving Repr

/-- A parameter with nothing but a name and a type. -/
def Parameter.plain (name : String) (type : ValueType) : Parameter :=
  ⟨name, type, false, none, none⟩

/-- Which members a schema requires: named ones for objects, one flag for lists. -/
inductive Required
  | unspecified
  | properties (names : List String)
  | array (flag : Bool)
deriving DecidableEq, Repr, Inhabited

/-- A type with its members. -/
structure Schema where
  name : String
  type : ValueType
  nullable : Bool
  description : Option String
  items : Option Schema
  properties : List (String × Schema)
  required : Required
  enumValues : List Json
deriving Repr, Inhabited

namespace Schema

/-- A schema without members. -/
def scalar (name : String) (type : ValueType) : Schema :=
  ⟨name, type, false, none, none, [], .unspecified, []⟩

/-- A schema with properties in order. -/
def object (name : String) (properties : Table Schema) (required : List String) : Schema :=
  ⟨name, .array, false, none, none, properties, .properties required, []⟩

/-- A list of items. -/
def array (name : String) (items : Schema) (required : Bool) : Schema :=
  ⟨name, .array, false, none, some items, [], .array required, []⟩

/-- Whether a class is made for the schema. -/
def isObject (s : Schema) : Bool :=
  !s.properties.isEmpty

/-- Whether a property has to be present. -/
def requires (s : Schema) (property : String) : Bool :=
  match s.required with
  | .properties names => names.contains property
  | _ => false

/-- The schema that the items of a list refer to. -/
def itemSchemaName? (s : Schema) : Option String :=
  s.items.bind fun items => items.type.schemaName?

/-- A property as a parameter of a request. -/
def toParameter (s : Schema) (required : Bool) : Parameter :=
  ⟨s.name, s.type, s.nullable || !required, Text.unlessBlank s.description, none⟩

end Schema

/-- A value that may stand as a default: a scalar that is no type annotation. -/
def isLiteralDefault : Json → Bool
  | .string s => !Naming.isTypeAnnotation s
  | .bool _ | .number _ => true
  | _ => false

end SdkSmith.Api
