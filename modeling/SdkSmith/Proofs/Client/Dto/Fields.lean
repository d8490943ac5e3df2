import SdkSmith.Client.Dto
import SdkSmith.Proofs.Client.Request.Methods
import SdkSmith.Proofs.TableLaws

/-!
The fields of a data class. They are added one by one, each under a variable that is given beside
those before it, and the class maps their names on the wire to these variables.
-/
namespace SdkSmith.Client
open Php (Expr File)
open Naming (GivenInTurn gaveWay)

/-- A name on the wire and a variable, as they stand in a map of fields. -/
def fieldOfEntry? : Expr × Expr → Option (String × String)
  | (.literal (.string wire), .literal (.string name)) => some (wire, name)
  | _ => none

/-- The variables of a data class, each with its name on the wire. -/
def fieldMap (f : File) : List (String × String) :=
  match (f.declaration.properties.find? fun p => p.name == "fieldMap").bind (·.default) with
  | some (.array entries) => entries.filterMap fieldOfEntry?
  | _ => []

/-- The variable that a field is to have, with the one that it has. -/
def fieldPair (field : String × String) : String × String :=
  (Naming.variableName field.1, field.2)

/-- What is told of a field that gives way. -/
def fieldCollision (className schemaName : String) (pair : String × String) : Collision :=
  ⟨.property, className, schemaName, pair.1, pair.2⟩

@[simp] theorem declaration_use (t : MemberType) (f : File) :
    (t.use f).2.declaration = f.declaration := by
  cases t with
  | plain => rfl
  | object c => exact declaration_importClass f c "Dto"
  | list items =>
    cases items with
    | none => rfl
    | some c => exact declaration_importClass f c "Dto"

theorem requiredFirst_perm (ps : List Php.Param) : (requiredFirst ps).Perm ps := by
  have hsome : (ps.filter fun p => p.default.isSome) = ps.filter fun p => !p.default.isNone :=
    List.filter_congr fun p _ => (Option.not_isNone _).symm
  rw [requiredFirst, hsome]
  exact List.filter_append_perm _ ps

namespace DtoDraft

variable {d : Api.Description} {classes : DtoClasses} {schemaName className : String}
  {schema m : Api.Schema} {b : DtoDraft} {property : String}

theorem fields_add : (b.add d classes schemaName schema property m).fields =
    b.fields ++ [(property,
      Naming.freshVariable (b.fields.map (·.2)) (Naming.variableName property))] := rfl

theorem params_add : (b.add d classes schemaName schema property m).params.map (·.name) =
    b.params.map (·.name) ++
      [Naming.freshVariable (b.fields.map (·.2)) (Naming.variableName property)] := by
  simp only [add, List.map_append, List.map_singleton]

theorem collisions_add : (b.add d classes schemaName schema property m).collisions =
    b.collisions ++
      if Naming.freshVariable (b.fields.map (·.2)) (Naming.variableName property) =
          Naming.variableName property then []
      else [fieldCollision b.file.declaration.name schemaName (Naming.variableName property,
        Naming.freshVariable (b.fields.map (·.2)) (Naming.variableName property))] := by
  simp only [add, fieldCollision]

theorem name_add : (b.add d classes schemaName schema property m).file.declaration.name =
    b.file.declaration.name :=
  congrArg (·.name) (declaration_use _ b.file)

/-- What holds of a data class after any fields. -/
structure Sound (className schemaName : String) (b : DtoDraft) : Prop where
  name_eq : b.file.declaration.name = className
  params_eq : b.params.map (·.name) = b.fields.map (·.2)
  given : GivenInTurn (b.fields.map fieldPair)
  collisions_eq :
    b.collisions = (gaveWay (b.fields.map fieldPair)).map (fieldCollision className schemaName)

theorem fields_start (s : Settings) (c : ClassRef) (schema : Api.Schema) :
    (start s c schema).fields = [] := by
  simp only [start]

theorem collisions_start (s : Settings) (c : ClassRef) (schema : Api.Schema) :
    (start s c schema).collisions = [] := by
  simp only [start]

theorem name_start (s : Settings) (c : ClassRef) (schema : Api.Schema) :
    (start s c schema).file.declaration.name = c.name := by
  simp only [start, declaration_importBase, File.plain, Php.Class.empty]

theorem sound_start (s : Settings) (c : ClassRef) (schemaName : String) (schema : Api.Schema) :
    (start s c schema).Sound c.name schemaName := by
  constructor
  case name_eq => exact name_start s c schema
  case params_eq => simp only [start, List.map_nil]
  case given =>
    rw [fields_start]
    exact Naming.givenInTurn_nil
  case collisions_eq =>
    rw [collisions_start, fields_start]
    rfl

theorem Sound.add (h : b.Sound className schemaName) (d : Api.Description) (classes : DtoClasses)
    (schema : Api.Schema) (property : String) (m : Api.Schema) :
    (b.add d classes schemaName schema property m).Sound className schemaName := by
  have hnames : (b.fields.map fieldPair).map (·.2) = b.fields.map (·.2) := by
    simp only [List.map_map, Function.comp_def, fieldPair]
  have hpairs : (b.add d classes schemaName schema property m).fields.map fieldPair =
      b.fields.map fieldPair ++ [(Naming.variableName property,
        Naming.freshVariable (b.fields.map (·.2)) (Naming.variableName property))] := by
    rw [fields_add, List.map_append, List.map_singleton, fieldPair]
  constructor
  case name_eq => rw [name_add, h.name_eq]
  case params_eq => rw [params_add, fields_add, List.map_append, h.params_eq, List.map_singleton]
  case given =>
    rw [hpairs, Naming.givenInTurn_append_singleton, hnames]
    exact ⟨h.given, Naming.freshVariable_given _ _⟩
  case collisions_eq =>
    rw [hpairs, Naming.gaveWay_append_singleton, collisions_add, h.collisions_eq, h.name_eq]
    split
    · rw [List.append_nil]
    · rw [List.map_append, List.map_singleton]

theorem foldl_add_sound (d : Api.Description) (classes : DtoClasses) (schema : Api.Schema)
    (ps : List (String × Api.Schema)) (h : b.Sound className schemaName) :
    (ps.foldl (fun b (property, m) => b.add d classes schemaName schema property m) b).Sound
      className schemaName ∧
    (ps.foldl (fun b (property, m) => b.add d classes schemaName schema property m) b).fields.map
      (·.1) = b.fields.map (·.1) ++ ps.map (·.1) := by
  induction ps generalizing b with
  | nil => exact ⟨h, (List.append_nil _).symm⟩
  | cons p ps ih =>
    obtain ⟨hsound, hwires⟩ := ih (h.add d classes schema p.1 p.2)
    refine ⟨hsound, hwires.trans ?_⟩
    rw [fields_add, List.map_append, List.append_assoc]
    rfl

theorem fieldMap_finish (b : DtoDraft) : fieldMap b.finish = b.fields := by
  have hentries : ∀ fields, (fieldEntries fields).filterMap fieldOfEntry? = fields := by
    intro fields
    rw [fieldEntries, List.filterMap_map]
    exact List.filterMap_some
  exact hentries b.fields

theorem memberNames_finish (b : DtoDraft) :
    (memberNames b.finish).Perm (b.params.map (·.name)) :=
  (requiredFirst_perm b.params).map _

end DtoDraft

/-- A data class has a field for each property of its schema, in their order, each with a variable
that is given beside those before it, and what is told are the fields that give way. -/
theorem dtoFile_fields (d : Api.Description) (s : Settings) (classes : DtoClasses)
    (name : String) (c : ClassRef) (schema : Api.Schema) :
    (dtoFile d s classes name c schema).1.declaration.name = c.name ∧
    (fieldMap (dtoFile d s classes name c schema).1).map (·.1) = schema.properties.map (·.1) ∧
    (memberNames (dtoFile d s classes name c schema).1).Perm
      ((fieldMap (dtoFile d s classes name c schema).1).map (·.2)) ∧
    GivenInTurn ((fieldMap (dtoFile d s classes name c schema).1).map fieldPair) ∧
    (dtoFile d s classes name c schema).2 =
      (gaveWay ((fieldMap (dtoFile d s classes name c schema).1).map fieldPair)).map
        (fieldCollision c.name name) := by
  obtain ⟨hsound, hwires⟩ := DtoDraft.foldl_add_sound d classes schema schema.properties
    (DtoDraft.sound_start s c name schema)
  rw [DtoDraft.fields_start, List.map_nil, List.nil_append] at hwires
  rw [dtoFile, DtoDraft.fieldMap_finish, ← hsound.params_eq]
  exact ⟨hsound.name_eq, hwires, DtoDraft.memberNames_finish _, hsound.given,
    hsound.collisions_eq⟩

/-- Each object schema has a class. -/
theorem keys_dtoClasses (d : Api.Description) (s : Settings) :
    Table.keys (dtoClasses d s) =
      Table.keys (d.components.schemas.filter fun x => x.2.isObject) := by
  have hrun : ∀ (objects : Table Api.Schema) (classes : DtoClasses),
      Table.keys (objects.foldl (fun classes x =>
        classes ++ [(x.1, ⟨dtoNamespaceOf d s x.1, freshDtoName s (dtoNamespaceOf d s x.1)
          (classes.map fun y => y.2.name) x.1⟩)]) classes) =
        Table.keys classes ++ Table.keys objects := by
    intro objects
    induction objects with
    | nil => exact fun classes => (List.append_nil _).symm
    | cons x objects ih =>
      intro classes
      rw [List.foldl_cons, ih, Table.keys_append, List.append_assoc]
      rfl
  exact hrun _ []

end SdkSmith.Client
