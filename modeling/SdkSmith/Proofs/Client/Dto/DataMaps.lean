import SdkSmith.Proofs.Client.Connector.Members
import SdkSmith.Proofs.Client.Dto.DataMembers
import SdkSmith.Proofs.Client.Dto.ObjectFiles

/-!
The lists of a data class. It maps the wire names of its properties to variables, takes a parameter
for each of them, and names the classes that objects and the items of lists are made from. Each of
these lists is filled with one property after the other, so all of them tell of the same fields.
-/
namespace SdkSmith.Client
open Php (Expr File Param)

variable {d : Api.Description} {s : Settings} {classes : DtoClasses} {schemaName : String}
  {schema m : Api.Schema} {b : DtoDraft} {f : File}

/-! What a data class is to have -/

/-- A variable and a class, as they stand in a map of casts. -/
def castOfEntry? : Expr × Expr → Option (String × String)
  | (.literal (.string name), .classConst c _) => some (name, c)
  | _ => none

/-- The variables in a map of casts, with the names of their classes. -/
def castMap (name : String) (f : File) : List (String × String) :=
  match (f.declaration.properties.find? fun p => p.name == name).bind (·.default) with
  | some (.array entries) => entries.filterMap castOfEntry?
  | _ => []

/-- Whether a type is that of an object in the table, so that it has a class. -/
def IsObjectType (d : Api.Description) (s : Settings) (t : Api.ValueType) : Prop :=
  ∃ name ∈ Table.keys (dtoClasses d s), t = .named name

/-- Whether a schema lists objects. A schema lists what its items are. -/
def ListsObjects (d : Api.Description) (s : Settings) (schema : Api.Schema) : Prop :=
  ∃ items, schema.items = some items ∧ IsObjectType d s items.type

/-- Whether a member is a list of objects, or is named after a schema without a class that is. -/
def IsObjectList (d : Api.Description) (s : Settings) (m : Api.Schema) : Prop :=
  (m.type = .array ∧ ListsObjects d s m) ∨
    ∃ name ∉ Table.keys (dtoClasses d s), m.type = .named name ∧
      ∃ target, Table.find? name d.components.schemas = some target ∧ ListsObjects d s target

/-- Whether a data class mirrors its schema. Each property has a variable of its own, and each
variable is a parameter, those with a default last and otherwise in the order of the properties. The
default is null, for the members that may be null or absent. The maps of casts have those that are
objects and those that list objects. -/
structure Mirrors (d : Api.Description) (s : Settings) (schema : Api.Schema) (f : File) : Prop where
  wires : Table.keys (fieldMap f) = Table.keys schema.properties
  once : (Table.keys (fieldMap f)).Nodup
  distinct : ((fieldMap f).map (·.2)).Nodup
  params : ((constructorParams f).map (·.name)).Perm ((fieldMap f).map (·.2))
  requiredFirst : (constructorParams f).Pairwise fun p q => p.default.isSome → q.default.isSome
  inOrder : ∀ optional,
    (((constructorParams f).filter fun p => p.default.isSome == optional).map (·.name)).Sublist
      ((fieldMap f).map (·.2))
  defaults : ∀ p ∈ constructorParams f, p.default = none ∨ p.default = some .null
  optional : ∀ p ∈ constructorParams f, ∀ wire m, (wire, m) ∈ schema.properties →
    (wire, p.name) ∈ fieldMap f →
      (p.default = some .null ↔ m.nullable = true ∨ schema.requires wire = false)
  castsOnce : (Table.keys (castMap "casts" f)).Sublist ((fieldMap f).map (·.2))
  listCastsOnce : (Table.keys (castMap "listCasts" f)).Sublist ((fieldMap f).map (·.2))
  casts : ∀ name, name ∈ Table.keys (castMap "casts" f) ↔ ∃ wire m,
    (wire, m) ∈ schema.properties ∧ (wire, name) ∈ fieldMap f ∧ IsObjectType d s m.type
  listCasts : ∀ name, name ∈ Table.keys (castMap "listCasts" f) ↔ ∃ wire m,
    (wire, m) ∈ schema.properties ∧ (wire, name) ∈ fieldMap f ∧ IsObjectList d s m
  disjoint : (Table.keys (castMap "casts" f)).Disjoint (Table.keys (castMap "listCasts" f))

/-! Types of members -/

theorem isObjectType_named {name : String} :
    IsObjectType d s (.named name) ↔ name ∈ Table.keys (dtoClasses d s) := by
  simp [IsObjectType]

theorem listCast?_listType :
    (listType (dtoClasses d s) schema).listCast?.isSome ↔ ListsObjects d s schema := by
  rw [listType, MemberType.listCast?, ListsObjects, Api.Schema.itemSchemaName?]
  cases schema.items with
  | none => simp
  | some items =>
    simp only [Option.bind_some, Option.some.injEq, exists_eq_left']
    cases items.type with
    | named name => rw [isObjectType_named, ← Table.find?_isSome]; rfl
    | _ => simp [Api.ValueType.schemaName?, IsObjectType]

theorem not_listsObjects (h : ¬ schema.items.isSome) : ¬ ListsObjects d s schema := by
  rintro ⟨items, hitems, -⟩
  rw [hitems] at h
  exact h rfl

/-- What a name without a class stands for is no object, and lists objects if its schema does. -/
theorem casts_memberType_of_not_mem {name : String} (htype : m.type = .named name)
    (hname : name ∉ Table.keys (dtoClasses d s)) :
    (memberType d (dtoClasses d s) m).cast? = none ∧
      ((memberType d (dtoClasses d s) m).listCast?.isSome ↔
        ∃ target, Table.find? name d.components.schemas = some target ∧
          ListsObjects d s target) := by
  have hnone : Table.find? name (dtoClasses d s) = none := by
    rwa [← Table.find?_isSome, Option.not_isSome_iff_eq_none] at hname
  simp only [memberType, htype, hnone]
  cases Table.find? name d.components.schemas with
  | none => simp [MemberType.cast?, MemberType.listCast?]
  | some target =>
    simp only [Option.some.injEq, exists_eq_left']
    split
    · exact ⟨rfl, listCast?_listType⟩
    · rename_i hitems
      have hlists := not_listsObjects (d := d) (s := s) hitems
      split <;> simp [MemberType.cast?, MemberType.listCast?, hlists]

theorem cast?_memberType :
    (memberType d (dtoClasses d s) m).cast?.isSome ↔ IsObjectType d s m.type := by
  cases htype : m.type with
  | named name =>
    rw [isObjectType_named]
    by_cases hname : name ∈ Table.keys (dtoClasses d s)
    · obtain ⟨c, hc⟩ := Option.isSome_iff_exists.mp (Table.find?_isSome.mpr hname)
      simp [memberType, htype, hc, hname, MemberType.cast?]
    · simp [(casts_memberType_of_not_mem htype hname).1, hname]
  | array =>
    simp only [memberType, htype]
    split <;> simp [listType, MemberType.cast?, IsObjectType]
  | _ => simp [memberType, htype, MemberType.cast?, IsObjectType]

theorem listCast?_memberType :
    (memberType d (dtoClasses d s) m).listCast?.isSome ↔ IsObjectList d s m := by
  rw [IsObjectList]
  cases htype : m.type with
  | named name =>
    by_cases hname : name ∈ Table.keys (dtoClasses d s)
    · obtain ⟨c, hc⟩ := Option.isSome_iff_exists.mp (Table.find?_isSome.mpr hname)
      simp [memberType, htype, hc, hname, MemberType.listCast?]
    · simp [(casts_memberType_of_not_mem htype hname).2, hname]
  | array =>
    simp only [memberType, htype]
    split
    · simp [listCast?_listType]
    · rename_i hitems
      simp [MemberType.listCast?, not_listsObjects hitems]
  | _ => simp [memberType, htype, MemberType.listCast?]

/-- No member is both an object and a list of objects. -/
theorem IsObjectType.not_isObjectList (h : IsObjectType d s m.type) : ¬ IsObjectList d s m := by
  obtain ⟨name, hname, htype⟩ := h
  rintro (⟨harray, -⟩ | ⟨other, hother, hnamed, -⟩)
  · rw [htype] at harray
    cases harray
  · rw [htype] at hnamed
    cases hnamed
    exact hother hname

/-! Drafts -/

/-- A property with its schema and the variable that it has. -/
abbrev Row := (String × Api.Schema) × String

/-- The variables of the properties that satisfy a condition. -/
def variablesWhere (p : String × Api.Schema → Bool) (rows : List Row) : List String :=
  (rows.filter fun x => p x.1).map (·.2)

theorem variablesWhere_concat (p : String × Api.Schema → Bool) (rows : List Row) (x : Row) :
    variablesWhere p (rows ++ [x]) = variablesWhere p rows ++ if p x.1 then [x.2] else [] := by
  rw [variablesWhere, List.filter_append, List.map_append]
  cases h : p x.1 <;> simp [h, variablesWhere]

theorem mem_variablesWhere {p : String × Api.Schema → Bool} {rows : List Row} {name : String} :
    name ∈ variablesWhere p rows ↔ ∃ x, (x, name) ∈ rows ∧ p x = true := by
  simp [variablesWhere]

theorem variablesWhere_sublist (p : String × Api.Schema → Bool) (rows : List Row) :
    (variablesWhere p rows).Sublist (rows.map (·.2)) :=
  List.filter_sublist.map _

/-- Where names are distinct, the variable of a property is the one that its name is mapped to. -/
theorem mem_rows {rows : List Row} (h : (rows.map fun x => x.1.1).Nodup) {x : String × Api.Schema}
    {name : String} : (x, name) ∈ rows ↔
      x ∈ rows.map (·.1) ∧ (x.1, name) ∈ rows.map fun x => (x.1.1, x.2) := by
  constructor
  · intro hx
    exact ⟨List.mem_map_of_mem hx, List.mem_map_of_mem hx⟩
  · rintro ⟨hx, hfield⟩
    obtain ⟨y, hy, rfl⟩ := List.mem_map.mp hx
    obtain ⟨z, hz, heq⟩ := List.mem_map.mp hfield
    obtain ⟨hwire, rfl⟩ := Prod.mk.inj heq
    obtain rfl := List.inj_on_of_nodup_map h hy hz hwire.symm
    exact hy

theorem variablesWhere_disjoint {p q : String × Api.Schema → Bool} {rows : List Row}
    (h : (rows.map (·.2)).Nodup) (hpq : ∀ x, p x = true → q x = true → False) :
    (variablesWhere p rows).Disjoint (variablesWhere q rows) := by
  intro name hleft hright
  obtain ⟨x, hx, hpx⟩ := mem_variablesWhere.mp hleft
  obtain ⟨y, hy, hqy⟩ := mem_variablesWhere.mp hright
  obtain ⟨rfl, -⟩ := Prod.mk.inj (List.inj_on_of_nodup_map h hx hy rfl)
  exact hpq x hpx hqy

/-- The default of a property's parameter. -/
def defaultOf (schema : Api.Schema) (p : String × Api.Schema) : Option Expr :=
  if p.2.nullable || !schema.requires p.1 then some .null else none

theorem defaultOf_eq_or (schema : Api.Schema) (x : String × Api.Schema) :
    defaultOf schema x = none ∨ defaultOf schema x = some .null := by
  rw [defaultOf]
  split
  · exact Or.inr rfl
  · exact Or.inl rfl

theorem defaultOf_eq_null {x : String × Api.Schema} :
    defaultOf schema x = some .null ↔ x.2.nullable = true ∨ schema.requires x.1 = false := by
  rw [defaultOf]
  cases x.2.nullable <;> simp

namespace DtoDraft

/-- What the lists of a data class have after these properties. -/
structure Lists (d : Api.Description) (classes : DtoClasses) (schema : Api.Schema)
    (rows : List Row) (b : DtoDraft) : Prop where
  fields : b.fields = rows.map fun x => (x.1.1, x.2)
  params : b.params.map (fun p => (p.name, p.default)) =
    rows.map fun x => (x.2, defaultOf schema x.1)
  casts : Table.keys b.casts =
    variablesWhere (fun x => (memberType d classes x.2).cast?.isSome) rows
  listCasts : Table.keys b.listCasts =
    variablesWhere (fun x => (memberType d classes x.2).listCast?.isSome) rows

theorem lists_start (d : Api.Description) (s : Settings) (classes : DtoClasses) (c : ClassRef)
    (schema : Api.Schema) : (start s c schema).Lists d classes schema [] := by
  simp only [start]
  exact ⟨rfl, rfl, rfl, rfl⟩

theorem keys_of_cast (name : String) {cast : Option String} {c : Option ClassRef}
    (h : cast = none ↔ c = none) :
    Table.keys (cast.map fun c => (name, c)).toList = if c.isSome then [name] else [] := by
  cases cast <;> cases c <;> simp_all [Table.keys]

theorem Lists.add {rows : List Row} (h : b.Lists d classes schema rows) (schemaName : String)
    (p : String × Api.Schema) :
    ∃ name, (b.add d classes schemaName schema p.1 p.2).Lists d classes schema
      (rows ++ [(p, name)]) := by
  obtain ⟨hcast, hlistCast⟩ := (memberType d classes p.2).use_casts b.file
  refine ⟨Naming.freshVariable (b.fields.map (·.2)) (Naming.variableName p.1), ?_⟩
  constructor
  case fields => rw [fields_add, h.fields, List.map_append, List.map_singleton]
  case params =>
    simp only [DtoDraft.add, List.map_append, h.params, List.map_singleton, defaultOf]
  case casts =>
    rw [variablesWhere_concat, ← h.casts, ← keys_of_cast _ hcast, ← Table.keys_append]
    rfl
  case listCasts =>
    rw [variablesWhere_concat, ← h.listCasts, ← keys_of_cast _ hlistCast, ← Table.keys_append]
    rfl

theorem lists_foldl (schemaName : String) (ps : List (String × Api.Schema)) {rows : List Row}
    (h : b.Lists d classes schema rows) : ∃ rows', rows'.map (·.1) = rows.map (·.1) ++ ps ∧
      (ps.foldl (fun b (property, m) => b.add d classes schemaName schema property m) b).Lists
        d classes schema rows' := by
  induction ps generalizing b rows with
  | nil => exact ⟨rows, (List.append_nil _).symm, h⟩
  | cons p ps ih =>
    obtain ⟨name, hadd⟩ := h.add schemaName p
    obtain ⟨rows', hrows, hlists⟩ := ih hadd
    refine ⟨rows', ?_, hlists⟩
    rw [hrows, List.map_append, List.append_assoc]
    rfl

/-- A parameter has a row. -/
theorem Lists.exists_row {rows : List Row} (h : b.Lists d classes schema rows)
    {p : Php.Param} (hp : p ∈ b.params) :
    ∃ x, (x, p.name) ∈ rows ∧ p.default = defaultOf schema x := by
  have hpair := List.mem_map_of_mem (f := fun p : Php.Param => (p.name, p.default)) hp
  rw [h.params] at hpair
  obtain ⟨⟨x, name⟩, hx, heq⟩ := List.mem_map.mp hpair
  obtain ⟨rfl, hdefault⟩ := Prod.mk.inj heq
  exact ⟨x, hx, hdefault.symm⟩

/-! Classes -/

theorem castMap_finish (b : DtoDraft) :
    castMap "casts" b.finish = b.casts ∧ castMap "listCasts" b.finish = b.listCasts := by
  have hentries : ∀ casts, (castEntries casts).filterMap castOfEntry? = casts := by
    intro casts
    rw [castEntries, List.filterMap_map]
    exact List.filterMap_some
  have hproperties : b.finish.declaration.properties =
      Support.staticMap "fieldMap" (fieldEntries b.fields) ::
        mapProperty "casts" (castEntries b.casts) ++
        mapProperty "listCasts" (castEntries b.listCasts) := rfl
  rw [castMap, castMap, hproperties]
  -- a map that would be empty is left out
  cases hcasts : b.casts with
  | nil =>
    cases hlists : b.listCasts with
    | nil => exact ⟨rfl, rfl⟩
    | cons x l => exact ⟨rfl, hentries (x :: l)⟩
  | cons x l =>
    refine ⟨hentries (x :: l), ?_⟩
    cases hlists : b.listCasts with
    | nil => rfl
    | cons y k => exact hentries (y :: k)

end DtoDraft

theorem mirrors_finish {rows : List Row}
    (hlists : b.Lists d (dtoClasses d s) schema rows) (hrows : rows.map (·.1) = schema.properties)
    (hwires : (Table.keys schema.properties).Nodup) (hdistinct : (rows.map (·.2)).Nodup) :
    Mirrors d s schema b.finish := by
  obtain ⟨hcasts, hlistCasts⟩ := DtoDraft.castMap_finish b
  have hfields : fieldMap b.finish = rows.map fun x => (x.1.1, x.2) := by
    rw [DtoDraft.fieldMap_finish, hlists.fields]
  have hkeys : Table.keys (fieldMap b.finish) = Table.keys schema.properties := by
    rw [hfields, ← hrows, Table.keys, Table.keys, List.map_map, List.map_map]
    rfl
  have hvariables : (fieldMap b.finish).map (·.2) = rows.map (·.2) := by
    rw [hfields, List.map_map]
    rfl
  have hnames : b.params.map (·.name) = rows.map (·.2) := by
    have hfirst := congrArg (List.map Prod.fst) hlists.params
    rwa [List.map_map, List.map_map] at hfirst
  have hparams : constructorParams b.finish = requiredFirst b.params := rfl
  have hrow : ∀ {wire m name}, ((wire, m), name) ∈ rows ↔
      (wire, m) ∈ schema.properties ∧ (wire, name) ∈ fieldMap b.finish := by
    intro wire m name
    rw [hfields, ← hrows]
    refine mem_rows ?_
    rwa [← hrows, Table.keys, List.map_map] at hwires
  have hperm := requiredFirst_perm b.params
  constructor
  case wires => exact hkeys
  case once => rwa [hkeys]
  case distinct => rwa [hvariables]
  case params =>
    rw [hparams, hvariables, ← hnames]
    exact hperm.map _
  case requiredFirst => exact pairwise_requiredFirst b.params
  case inOrder =>
    intro optional
    rw [hparams, filter_requiredFirst, hvariables, ← hnames]
    exact List.filter_sublist.map _
  case defaults =>
    intro p hp
    obtain ⟨x, -, hdefault⟩ := hlists.exists_row (hperm.mem_iff.mp hp)
    rw [hdefault]
    exact defaultOf_eq_or schema x
  case optional =>
    intro p hp wire m hm hfield
    obtain ⟨x, hx, hdefault⟩ := hlists.exists_row (hperm.mem_iff.mp hp)
    -- a variable has one row
    obtain ⟨rfl, -⟩ := Prod.mk.inj
      (List.inj_on_of_nodup_map hdistinct hx (hrow.mpr ⟨hm, hfield⟩) rfl)
    rw [hdefault]
    exact defaultOf_eq_null
  case castsOnce =>
    rw [hcasts, hlists.casts, hvariables]
    exact variablesWhere_sublist _ rows
  case listCastsOnce =>
    rw [hlistCasts, hlists.listCasts, hvariables]
    exact variablesWhere_sublist _ rows
  case casts =>
    intro name
    rw [hcasts, hlists.casts, mem_variablesWhere, Prod.exists]
    simp only [hrow, cast?_memberType, and_assoc]
  case listCasts =>
    intro name
    rw [hlistCasts, hlists.listCasts, mem_variablesWhere, Prod.exists]
    simp only [hrow, listCast?_memberType, and_assoc]
  case disjoint =>
    rw [hcasts, hlistCasts, hlists.casts, hlists.listCasts]
    refine variablesWhere_disjoint hdistinct fun x hcast hlistCast => ?_
    exact (cast?_memberType.mp hcast).not_isObjectList (listCast?_memberType.mp hlistCast)

theorem mirrors_dtoFile (hwires : (Table.keys schema.properties).Nodup) (name : String)
    (c : ClassRef) : Mirrors d s schema (dtoFile d s (dtoClasses d s) name c schema).1 := by
  obtain ⟨hsound, -⟩ := DtoDraft.foldl_add_sound d (dtoClasses d s) schema schema.properties
    (DtoDraft.sound_start s c name schema)
  obtain ⟨rows, hrows, hlists⟩ := DtoDraft.lists_foldl name schema.properties
    (DtoDraft.lists_start d s (dtoClasses d s) c schema)
  rw [List.map_nil, List.nil_append] at hrows
  refine mirrors_finish hlists hrows hwires ?_
  have hdistinct := hsound.given.nodup
  rw [hlists.fields, List.map_map, List.map_map] at hdistinct
  exact hdistinct

/-! Clients -/

/-- Each object in the table has a class that mirrors it, among those of responses or among the
others, in the order of the table. -/
structure HasMirrors (d : Api.Description) (s : Settings) (dtos responses : List File) : Prop where
  others : List.Forall₂ (fun x f => Mirrors d s x.2 f)
    ((objectSchemas d).filter fun x => !d.components.isResponse x.1) dtos
  ofResponses : List.Forall₂ (fun x f => Mirrors d s x.2 f)
    ((objectSchemas d).filter fun x => d.components.isResponse x.1) responses

theorem hasMirrors_objectFiles (hk : (Table.keys d.components.schemas).Nodup)
    (hwires : ∀ x ∈ d.components.schemas, (Table.keys x.2.properties).Nodup) (s : Settings) :
    HasMirrors d s (objectFiles d s (!·)) (objectFiles d s id) := by
  have hall : ∀ x ∈ schemaClasses d s,
      Mirrors d s x.2.2 (dtoFile d s (dtoClasses d s) x.1 x.2.1 x.2.2).1 := by
    intro x hx
    have hobject : (x.1, x.2.2) ∈ objectSchemas d := by
      rw [← schemas_schemaClasses hk s]
      exact List.mem_map_of_mem hx
    exact mirrors_dtoFile (hwires _ (List.mem_filter.mp hobject).1) x.1 x.2.1
  constructor
  case others => exact forall₂_objectFiles (p := (!·)) hk fun x hx _ => hall x hx
  case ofResponses => exact forall₂_objectFiles (p := id) hk fun x hx _ => hall x hx

/-- Users and their teams. Two properties of a user have the same variable, one refers to a list of
teams by its name and one to a list of texts, and one has items of a schema without a class. -/
def league : Api.Description :=
  let named (name schema : String) := Api.Schema.scalar name (.named schema)
  { Api.Description.empty with
    components := ⟨[], [
      ("user", .object "user" [
        ("user_id", .scalar "user_id" .string),
        ("team", named "team" "team"),
        ("userId", { Api.Schema.scalar "userId" .int with nullable := true }),
        ("former", .array "former" (named "items" "team") false),
        ("allies", named "allies" "teams"),
        ("tags", named "tags" "tags"),
        ("notes", .array "notes" (named "items" "tags") false),
        ("boss", named "boss" "user")] ["team", "userId", "boss", "tags"]),
      ("teams", .array "teams" (named "items" "team") false),
      ("tags", .array "tags" (.scalar "items" .string) false),
      ("team", .object "team" [("users", .array "users" (named "items" "user") false)] ["users"])],
      ["team"]⟩ }

namespace Sdk

/-- The class of each object in the table mirrors it, whatever the description refers to; a client
that can be made has these classes. -/
theorem generate_mirrors (hk : (Table.keys d.components.schemas).Nodup)
    (hwires : ∀ x ∈ d.components.schemas, (Table.keys x.2.properties).Nodup) :
    HasMirrors d s (objectFiles d s (!·)) (objectFiles d s id) ∧
    ∀ sdk, generate d s = .ok sdk → HasMirrors d s sdk.dtos sdk.responses := by
  have hmirrors := hasMirrors_objectFiles hk hwires s
  refine ⟨hmirrors, fun sdk h => ?_⟩
  obtain ⟨-, connector, -, rfl⟩ := generate_eq_ok h
  exact hmirrors

/-- A class lists the same variables in its parameters, of which those with a default are last, and
in both maps of casts. -/
theorem generate_league_mirrors : (Table.keys league.components.schemas).Nodup ∧
    (∀ x ∈ league.components.schemas, (Table.keys x.2.properties).Nodup) ∧
    ∃ sdk, generate league flat = .ok sdk ∧
      sdk.dtos.map (fun f => (constructorParams f).map (·.name)) = [["team", "tags", "boss",
        "userId", "userIdDuplicate1", "former", "allies", "notes"]] ∧
      sdk.dtos.map (fun f => Table.keys (castMap "casts" f)) = [["team", "boss"]] ∧
      sdk.dtos.map (fun f => Table.keys (castMap "listCasts" f)) = [["former", "allies"]] ∧
      HasMirrors league flat sdk.dtos sdk.responses := by
  have hk : (Table.keys league.components.schemas).Nodup := by decide
  have hwires : ∀ x ∈ league.components.schemas, (Table.keys x.2.properties).Nodup := by decide
  have hrun : (generate league flat).toOption.map (fun sdk =>
      (sdk.dtos.map (fun f => (constructorParams f).map (·.name)),
        sdk.dtos.map (fun f => Table.keys (castMap "casts" f)),
        sdk.dtos.map (fun f => Table.keys (castMap "listCasts" f)))) =
      some ([["team", "tags", "boss", "userId", "userIdDuplicate1", "former", "allies", "notes"]],
        [["team", "boss"]], [["former", "allies"]]) := by decide +kernel
  obtain ⟨sdk, hsdk, hlists⟩ := toOption_map_eq_some.mp hrun
  obtain ⟨hparams, hcasts, hlistCasts⟩ := Prod.mk.inj hlists |>.imp_right Prod.mk.inj
  exact ⟨hk, hwires, sdk, hsdk, hparams, hcasts, hlistCasts,
    (generate_mirrors hk hwires).2 sdk hsdk⟩

end Sdk
end SdkSmith.Client
