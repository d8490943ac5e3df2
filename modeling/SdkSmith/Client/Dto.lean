import SdkSmith.Client.Imports
import SdkSmith.Client.Support

/-!
Data classes, one for each object in the table of schemas. A member that refers to an object has
that object's class as its type, so cyclic tables need no special care.
-/
namespace SdkSmith.Client
open Php (Class Expr File Method Param PhpType)

/-- The class of each object schema, in the order of the table. -/
abbrev DtoClasses := Table ClassRef

/-- The namespace of a schema's class. -/
def dtoNamespaceOf (d : Api.Description) (s : Settings) (schema : String) : String :=
  if d.components.isResponse schema then s.responseNamespace else s.dtoNamespace

/-- A class name that is neither taken nor, in its namespace, that of a fixed class. -/
def freshDtoName (s : Settings) (namespaceName : String) (taken : List String) (schema : String) :
    String :=
  let wanted := Naming.className schema "Dto"
  let lead := namespaceName ++ "\\"
  let fixed := (fixedClasses s).filterMap (Text.afterLead? lead)
  Naming.freshNumbered (taken ++ fixed) wanted

/-- Gives a class to each object schema before any class is built, so that members may refer to
schemas further down. -/
def dtoClasses (d : Api.Description) (s : Settings) : DtoClasses :=
  let objects := d.components.schemas.filter fun (_, schema) => schema.isObject
  objects.foldl (fun classes (name, _) =>
    let namespaceName := dtoNamespaceOf d s name
    let taken := classes.map fun (_, c) => c.name
    classes ++ [(name, ⟨namespaceName, freshDtoName s namespaceName taken name⟩)]) []

/-- The type of a member: the data class that it is, or whose items it lists, if any. -/
inductive MemberType
  | plain (type : PhpType)
  | object (c : ClassRef)
  | list (items : Option ClassRef)
deriving Repr

/-- The type of a list. -/
def listType (classes : DtoClasses) (schema : Api.Schema) : MemberType :=
  .list (schema.itemSchemaName?.bind fun name => Table.find? name classes)

/-- The type of a member. A name without a class stands for the list or scalar that it names. -/
def memberType (d : Api.Description) (classes : DtoClasses) (m : Api.Schema) : MemberType :=
  match m.type with
  | .named name =>
    match Table.find? name classes with
    | some c => .object c
    | none =>
      match Table.find? name d.components.schemas with
      | some target =>
        if target.items.isSome then listType classes target
        else match target.type with
          | .named _ => .plain .mixed
          | t => .plain (phpType t)
      | none => .plain .mixed
  | .array => if m.items.isSome then listType classes m else .plain (phpType .array)
  | t => .plain (phpType t)

/-- A data class while its members are added. -/
structure DtoDraft where
  file : File
  params : List Param
  /-- The name of each property on the wire, with its variable. -/
  fields : List (String × String)
  /-- The variables of objects, with the names of their classes. -/
  casts : List (String × String)
  /-- The variables of lists of objects, with the names of the items' classes. -/
  listCasts : List (String × String)
  collisions : List Collision
deriving Repr

/-- The line that tells the allowed values. -/
def allowedValues (values : List Json) : Option String :=
  if values.isEmpty then none
  else some ("Allowed values: " ++ ", ".intercalate (values.map Json.render))

/-- The line that tells the class of the items. -/
def itemsLine (name : String) (nullable : Bool) : String :=
  "@var " ++ name ++ "[]" ++ (if nullable then "|null" else "")

/-- The names that a member's type goes by: its declaration, and the class that it is or lists. -/
structure TypeUse where
  type : PhpType
  cast : Option String
  listCast : Option String
deriving Repr

/-- Imports what a member's type needs. -/
def MemberType.use (f : File) : MemberType → TypeUse × File
  | .plain t => (⟨t, none, none⟩, f)
  | .object c =>
    let (name, f) := importClass f c "Dto"
    (⟨.named name, some name, none⟩, f)
  | .list none => (⟨.array, none, none⟩, f)
  | .list (some c) =>
    let (name, f) := importClass f c "Dto"
    (⟨.array, none, some name⟩, f)

/-- Adds a property. -/
def DtoDraft.add (d : Api.Description) (classes : DtoClasses) (schemaName : String)
    (schema : Api.Schema) (b : DtoDraft) (property : String) (m : Api.Schema) : DtoDraft :=
  let wanted := Naming.variableName property
  let name := Naming.freshVariable (b.fields.map (·.2)) wanted
  let collision : List Collision :=
    if name = wanted then []
    else [⟨.property, b.file.declaration.name, schemaName, wanted, name⟩]
  let (u, file) := (memberType d classes m).use b.file
  let nullable := m.nullable || !schema.requires property
  let doc := docOf [m.description, allowedValues m.enumValues,
    u.listCast.map fun items => itemsLine items nullable]
  let param : Param :=
    ⟨name, some (u.type.orNull nullable), if nullable then some .null else none,
      some .everyone, doc⟩
  { file := file
    params := b.params ++ [param]
    fields := b.fields ++ [(property, name)]
    casts := b.casts ++ (u.cast.map fun c => (name, c)).toList
    listCasts := b.listCasts ++ (u.listCast.map fun c => (name, c)).toList
    collisions := b.collisions ++ collision }

/-- The entries that map names to variables. -/
def fieldEntries (fields : List (String × String)) : List (Expr × Expr) :=
  fields.map fun (wire, name) => (.string wire, .string name)

/-- The entries that map variables to classes. -/
def castEntries (casts : List (String × String)) : List (Expr × Expr) :=
  casts.map fun (name, c) => (.string name, .classConst c "class")

/-- A property for a map, unless the map is empty. -/
def mapProperty (name : String) (entries : List (Expr × Expr)) : List Php.Property :=
  if entries.isEmpty then [] else [Support.staticMap name entries]

/-- The file with its properties and constructor. -/
def DtoDraft.finish (b : DtoDraft) : File :=
  { b.file with declaration := { b.file.declaration with
      properties := Support.staticMap "fieldMap" (fieldEntries b.fields)
        :: mapProperty "casts" (castEntries b.casts)
        ++ mapProperty "listCasts" (castEntries b.listCasts)
      methods := [.plain "__construct" (requiredFirst b.params)] } }

/-- A data class without members. -/
def DtoDraft.start (s : Settings) (c : ClassRef) (schema : Api.Schema) : DtoDraft :=
  let f := File.plain c.namespaceName { Class.empty .plain c.name with
    doc := docOf [schema.description] }
  let (base, f) := importBase f (dtoBase s) "BaseDto"
  let f := { f with declaration := { f.declaration with parent := some base } }
  ⟨f, [], [], [], [], []⟩

/-- The data class of a schema, with the variables that gave way. -/
def dtoFile (d : Api.Description) (s : Settings) (classes : DtoClasses) (name : String)
    (c : ClassRef) (schema : Api.Schema) : File × List Collision :=
  let b := schema.properties.foldl
    (fun b (property, m) => b.add d classes name schema property m) (DtoDraft.start s c schema)
  (b.finish, b.collisions)

/-- A data class as it was made. -/
structure DtoFile where
  file : File
  isResponse : Bool
  collisions : List Collision
deriving Repr

/-- The data class of each object schema, in the order of the table. -/
def dtoFiles (d : Api.Description) (s : Settings) (classes : DtoClasses) : List DtoFile :=
  classes.filterMap fun (name, c) => (Table.find? name d.components.schemas).map fun schema =>
    let (file, collisions) := dtoFile d s classes name c schema
    ⟨file, d.components.isResponse name, collisions⟩

end SdkSmith.Client
