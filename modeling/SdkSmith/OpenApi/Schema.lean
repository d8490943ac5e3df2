import SdkSmith.Json.Value
import SdkSmith.Text.Blank

/-!
Schemas as an OpenAPI document writes them: every field may be missing, and a reference stands for
an entry of the table of components.
-/
namespace SdkSmith.OpenApi

/-- A type name, or several of which null may be one. -/
inductive TypeNames
  | single (name : String)
  | several (names : List String)
deriving DecidableEq, Repr

/-- The kind of body a schema was moved out of. -/
inductive Origin
  | request
  | response
deriving DecidableEq, Repr

/-- A schema. -/
structure Schema where
  type : Option TypeNames
  reference : Option String
  title : Option String
  description : Option String
  properties : Option (List (String × Schema))
  required : Option (List String)
  items : Option Schema
  allOf : Option (List Schema)
  format : Option String
  nullable : Option Bool
  enumValues : Option (List Json)
  default : Option Json
  origin : Option Origin
deriving Repr

/-- What stands before the name in a reference to a component schema. -/
def schemaPrefix : String := "#/components/schemas/"

/-- The name that a reference leads to. -/
def targetOf (reference : String) : String :=
  (Text.afterLead? schemaPrefix reference).getD reference

namespace Schema

/-- A schema that says nothing. -/
def blank : Schema :=
  ⟨none, none, none, none, none, none, none, none, none, none, none, none, none⟩

instance : Inhabited Schema := ⟨blank⟩

/-- A reference to an entry of the table. -/
def refTo (name : String) : Schema :=
  { blank with reference := some (schemaPrefix ++ name) }

/-- The name of the entry that a reference leads to. -/
def target? (s : Schema) : Option String :=
  s.reference.map targetOf

/-- The first type name other than null. -/
def primaryType? (s : Schema) : Option String :=
  match s.type with
  | some (.single t) => some t
  | some (.several ts) => ts.find? (· != "null")
  | none => none

/-- Whether null is allowed, by the flag or among the types. -/
def isNullable (s : Schema) : Bool :=
  s.nullable == some true || match s.type with
    | some (.several ts) => ts.contains "null"
    | _ => false

/-- Whether properties are written out here: some, or an empty list of an object. -/
def isInlineObject (s : Schema) : Bool :=
  s.reference.isNone && s.allOf.isNone && match s.properties with
    | some ps => !ps.isEmpty || s.primaryType? == some "object"
    | none => false

/-- Whether this is a list, perhaps of lists, of objects written out here. -/
def isArrayOfInlineObjects : Schema → Bool
  | ⟨type, reference, title, description, properties, required, items, allOf, format, nullable,
      enumValues, default, origin⟩ =>
    let s : Schema := ⟨type, reference, title, description, properties, required, none, allOf,
      format, nullable, enumValues, default, origin⟩
    reference.isNone && s.primaryType? == some "array" && match items with
      | some i => i.isInlineObject || isArrayOfInlineObjects i
      | none => false

/-- Whether a body with this schema becomes an entry of the table. -/
def needsName (s : Schema) : Bool :=
  s.isInlineObject || s.isArrayOfInlineObjects

mutual

/-- The number of schemas in a schema. -/
def size : Schema → Nat
  | ⟨_, _, _, _, properties, _, items, allOf, _, _, _, _, _⟩ =>
    1 + (match properties with
      | some ps => sizeProperties ps
      | none => 0) + (match items with
      | some i => size i
      | none => 0) + (match allOf with
      | some ss => sizeAll ss
      | none => 0)

/-- The number of schemas in properties. -/
def sizeProperties : List (String × Schema) → Nat
  | [] => 0
  | (_, s) :: ps => size s + sizeProperties ps

/-- The number of schemas in a list. -/
def sizeAll : List Schema → Nat
  | [] => 0
  | s :: ss => size s + sizeAll ss

end

end Schema
end SdkSmith.OpenApi
