import SdkSmith.Proofs.Client.Sdk.DistinctClasses

/-!
The files of object schemas. Each object in the table has one file and nothing else has any, in the
order of the table, among those of responses or among the others; no two of their classes have the
same name, and none has that of a class that every client has.
-/
namespace SdkSmith

namespace Table
variable {α : Type} {t l : Table α}

/-- Pairs that are found in a table follow from their keys. -/
theorem eq_map_keys (h : ∀ x ∈ l, find? x.1 t = some x.2) :
    l = (keys l).filterMap fun k => (find? k t).map fun v => (k, v) := by
  induction l with
  | nil => rfl
  | cons x l ih =>
    rw [List.forall_mem_cons] at h
    rw [keys_cons, List.filterMap_cons, h.1, Option.map_some, ← ih h.2]

/-- Pairs that are found in one table are the same if their keys are. -/
theorem eq_of_keys_eq {l' : Table α} (h : ∀ x ∈ l, find? x.1 t = some x.2)
    (h' : ∀ x ∈ l', find? x.1 t = some x.2) (hkeys : keys l = keys l') : l = l' := by
  rw [eq_map_keys h, eq_map_keys h', hkeys]

end Table

namespace Client
open Php (File)

variable {d : Api.Description} {s : Settings} {sdk : Sdk}

/-! Objects and their classes -/

/-- The objects in the table. -/
def objectSchemas (d : Api.Description) : Table Api.Schema :=
  d.components.schemas.filter fun x => x.2.isObject

/-- The schemas that have a class are the objects, each with its class. -/
theorem schemas_schemaClasses (hk : (Table.keys d.components.schemas).Nodup) (s : Settings) :
    (schemaClasses d s).map (fun x => (x.1, x.2.2)) = objectSchemas d := by
  refine Table.eq_of_keys_eq (t := d.components.schemas) ?_ ?_ ?_
  · rw [List.forall_mem_map]
    intro x hx
    obtain ⟨y, -, hy⟩ := List.mem_filterMap.mp hx
    obtain ⟨schema, hschema, rfl⟩ := Option.map_eq_some_iff.mp hy
    exact hschema
  · exact fun x hx => Table.find?_of_mem hk (List.mem_filter.mp hx).1
  · rw [objectSchemas, ← keys_schemaClasses d s, Table.keys, List.map_map]
    rfl

/-- A class has the name of its schema, or a numbered one. -/
theorem name_dtoClasses (d : Api.Description) (s : Settings) : ∀ x ∈ dtoClasses d s,
    x.2.name = Naming.className x.1 "Dto" ∨
      ∃ n, x.2.name = Naming.numbered (Naming.className x.1 "Dto") n := by
  refine List.foldlRecOn (motive := fun classes : DtoClasses => ∀ x ∈ classes,
    x.2.name = Naming.className x.1 "Dto" ∨
      ∃ n, x.2.name = Naming.numbered (Naming.className x.1 "Dto") n) _ _
    (List.forall_mem_nil _) ?_
  intro classes hclasses x _
  refine List.forall_mem_append.mpr ⟨hclasses, List.forall_mem_singleton.mpr ?_⟩
  exact Naming.freshNumbered_eq _ _

/-! Files -/

/-- Whether a file is the class of an object: it is in the namespace, under the name of the schema
or a numbered one, and has a field for each property. -/
structure IsClassOf (namespaceName : String) (x : String × Api.Schema) (f : File) : Prop where
  namespaceName : f.namespaceName = namespaceName
  name : f.declaration.name = Naming.className x.1 "Dto" ∨
    ∃ n, f.declaration.name = Naming.numbered (Naming.className x.1 "Dto") n
  fields : Table.keys (fieldMap f) = Table.keys x.2.properties

/-- The files of the objects that are responses, or of those that are not. -/
def objectFiles (d : Api.Description) (s : Settings) (p : Bool → Bool) : List File :=
  ((dtoFiles d s (dtoClasses d s)).filter fun f => p f.isResponse).map (·.file)

/-- Each object has one file: in its namespace, in the order of the table, and under a name that
neither another object nor a class at a fixed name has. -/
structure HasObjects (d : Api.Description) (s : Settings) (dtos responses : List File) : Prop where
  others : List.Forall₂ (IsClassOf s.dtoNamespace)
    ((objectSchemas d).filter fun x => !d.components.isResponse x.1) dtos
  ofResponses : List.Forall₂ (IsClassOf s.responseNamespace)
    ((objectSchemas d).filter fun x => d.components.isResponse x.1) responses
  names : ((dtos ++ responses).map (·.declaration.name)).Nodup
  free : ∀ f ∈ dtos ++ responses, f.qualifiedName ∉ fixedClasses s

theorem objectFiles_eq (d : Api.Description) (s : Settings) (p : Bool → Bool) :
    objectFiles d s p = ((schemaClasses d s).filter fun x => p (d.components.isResponse x.1)).map
      fun x => (dtoFile d s (dtoClasses d s) x.1 x.2.1 x.2.2).1 := by
  rw [objectFiles, dtoFiles_filter, schemaFiles, List.filter_map, List.map_map]
  rfl

theorem qualifiedName_dtoFile (d : Api.Description) (s : Settings) (classes : DtoClasses)
    (name : String) (c : ClassRef) (schema : Api.Schema) :
    (dtoFile d s classes name c schema).1.qualifiedName = c.qualifiedName :=
  (traces_dtoFile d s classes name c schema).qualifiedName.trans (Header.qualifiedName_usage _)

theorem namespaceName_dtoFile (d : Api.Description) (s : Settings) (classes : DtoClasses)
    (name : String) (c : ClassRef) (schema : Api.Schema) :
    (dtoFile d s classes name c schema).1.namespaceName = c.namespaceName := by
  have hpath := qualifiedName_dtoFile d s classes name c schema
  rw [File.qualifiedName, ClassRef.qualifiedName, (dtoFile_fields d s classes name c schema).1,
    String.append_left_inj, String.append_left_inj] at hpath
  exact hpath

theorem isClassOf_dtoFile {x : String × ClassRef × Api.Schema} (hx : x ∈ schemaClasses d s) :
    IsClassOf (dtoNamespaceOf d s x.1) (x.1, x.2.2)
      (dtoFile d s (dtoClasses d s) x.1 x.2.1 x.2.2).1 := by
  obtain ⟨hname, hfields, -, -, -⟩ := dtoFile_fields d s (dtoClasses d s) x.1 x.2.1 x.2.2
  obtain ⟨y, hy, hxy⟩ := List.mem_filterMap.mp hx
  obtain ⟨schema, -, rfl⟩ := Option.map_eq_some_iff.mp hxy
  constructor
  case namespaceName =>
    rw [namespaceName_dtoFile]
    exact namespaceName_dtoClasses d s y hy
  case name =>
    rw [hname]
    exact name_dtoClasses d s y hy
  case fields => exact hfields

/-- The objects that are responses, or those that are not, have their files in order. -/
theorem forall₂_objectFiles (hk : (Table.keys d.components.schemas).Nodup) {p : Bool → Bool}
    {R : String × Api.Schema → File → Prop}
    (h : ∀ x ∈ schemaClasses d s, p (d.components.isResponse x.1) →
      R (x.1, x.2.2) (dtoFile d s (dtoClasses d s) x.1 x.2.1 x.2.2).1) :
    List.Forall₂ R
      ((objectSchemas d).filter fun x => p (d.components.isResponse x.1)) (objectFiles d s p) := by
  rw [objectFiles_eq, ← schemas_schemaClasses hk s, List.filter_map]
  refine forall₂_map fun x hx => ?_
  obtain ⟨hmem, hp⟩ := List.mem_filter.mp hx
  exact h x hmem hp

/-- The class of a file. -/
def refOf (f : File) : ClassRef := ⟨f.namespaceName, f.declaration.name⟩

theorem refs_objectFiles (d : Api.Description) (s : Settings) (p : Bool → Bool) :
    (objectFiles d s p).map refOf =
      ((schemaClasses d s).filter fun x => p (d.components.isResponse x.1)).map (·.2.1) := by
  rw [objectFiles_eq, List.map_map]
  refine List.map_congr_left fun x _ => ?_
  rw [Function.comp_apply, refOf, namespaceName_dtoFile,
    (dtoFile_fields d s (dtoClasses d s) x.1 x.2.1 x.2.2).1]

/-- The files are of the classes of schemas, up to their order. -/
theorem refs_objectFiles_perm (d : Api.Description) (s : Settings) :
    ((objectFiles d s (!·) ++ objectFiles d s id).map refOf).Perm (schemaRefs d s) := by
  rw [List.map_append, refs_objectFiles, refs_objectFiles, ← List.map_append]
  exact own_schemas_perm d s

theorem hasObjects_objectFiles (hk : (Table.keys d.components.schemas).Nodup) (s : Settings) :
    HasObjects d s (objectFiles d s (!·)) (objectFiles d s id) := by
  have hperm := refs_objectFiles_perm d s
  have happart := apart_dtoClasses d s
  constructor
  case others =>
    refine forall₂_objectFiles (p := (!·)) hk fun x hx hother => ?_
    have hclass := isClassOf_dtoFile hx
    rwa [dtoNamespaceOf, if_neg (by simpa using hother)] at hclass
  case ofResponses =>
    refine forall₂_objectFiles (p := id) hk fun x hx hresponse => ?_
    have hclass := isClassOf_dtoFile hx
    rw [id_eq] at hresponse
    rwa [dtoNamespaceOf, if_pos hresponse] at hclass
  case names =>
    have hnames := (hperm.map ClassRef.name).nodup_iff
    rw [schemaRefs, List.map_map, List.map_map] at hnames
    exact hnames.mpr happart.nodup
  case free =>
    intro f hf
    obtain ⟨x, hx, heq⟩ := List.mem_map.mp (hperm.mem_iff.mp (List.mem_map_of_mem hf))
    have hfree := happart.free x hx
    rwa [heq] at hfree

/-! Clients -/

/-- Authors and their books, which refer to each other, pages that refer to themselves, a schema of
the name that another one's class would give way to, a list of books, and a response. -/
def library : Api.Description :=
  let object (name : String) (properties : Table Api.Schema) := (name, .object name properties [])
  { Api.Description.empty with
    components := ⟨[], [
      object "author" [("books", .array "books" (.scalar "items" (.named "book")) false)],
      object "book" [("author", .scalar "author" (.named "author"))],
      object "page" [("next", .scalar "next" (.named "page"))],
      object "Book" [("isbn", .scalar "isbn" .string)],
      object "book2" [("isbn", .scalar "isbn" .string)],
      ("shelf", .array "shelf" (.scalar "items" (.named "book")) false),
      object "dto" [("books", .scalar "books" (.named "shelf"))]], ["Book"]⟩ }

namespace Sdk

/-- The classes that every client has are the base classes and the connector. -/
theorem qualifiedName_fixedFiles (h : generate d s = .ok sdk) :
    (sdk.resourceBase :: sdk.support ++ [sdk.connector]).map (·.qualifiedName) =
      fixedClasses s := by
  obtain ⟨-, connector, hconnector, rfl⟩ := generate_eq_ok h
  have htraces : List.Forall₂ (fun x f => Traces (Header.usage x) f)
      [.ofResourceBase s, .ofDtoBase s, .ofContract s, .ofTrait s,
        .ofConnector d s (Plan.ofDescription d s)]
      (Support.resourceFile s :: Support.otherFiles s ++ [connector]) :=
    .cons (traces_resourceBase s) (.cons (traces_dtoBase s) (.cons (traces_contract s)
      (.cons (traces_trait s) (.cons (traces_connectorFile hconnector) .nil))))
  rw [fixedClasses_eq]
  exact map_eq_map_of_forall₂ (f := fun x => x.own.qualifiedName) htraces fun x _ htraces =>
    htraces.qualifiedName.trans x.qualifiedName_usage

/-- Each object in the table of schemas has one class, whatever the classes refer to, and nothing
else in the table has any; a client that can be made has these classes. -/
theorem generate_embodies (hk : (Table.keys d.components.schemas).Nodup) :
    HasObjects d s (objectFiles d s (!·)) (objectFiles d s id) ∧
    ∀ sdk, generate d s = .ok sdk → HasObjects d s sdk.dtos sdk.responses ∧
      ∀ f ∈ sdk.dtos ++ sdk.responses, f.qualifiedName ∉
        (sdk.resourceBase :: sdk.support ++ [sdk.connector]).map (·.qualifiedName) := by
  have hobjects := hasObjects_objectFiles hk s
  refine ⟨hobjects, fun sdk h => ?_⟩
  rw [qualifiedName_fixedFiles h]
  obtain ⟨-, connector, -, rfl⟩ := generate_eq_ok h
  exact ⟨hobjects, hobjects.free⟩

/-- Objects that refer to each other or to themselves have one class each. A name that is taken
gives way, in both namespaces, and so does that of the base class. -/
theorem generate_library_embodies : (Table.keys library.components.schemas).Nodup ∧
    ∃ sdk, generate library flat = .ok sdk ∧
      sdk.dtos.map (·.qualifiedName) =
        ["App\\Author", "App\\Book", "App\\Page", "App\\Book22", "App\\Dto2"] ∧
      sdk.responses.map (·.qualifiedName) = ["App\\Responses\\Book2"] ∧
      HasObjects library flat sdk.dtos sdk.responses := by
  have hk : (Table.keys library.components.schemas).Nodup := by decide
  have hrun : (generate library flat).toOption.map (fun sdk =>
      (sdk.dtos.map (·.qualifiedName), sdk.responses.map (·.qualifiedName))) =
        some (["App\\Author", "App\\Book", "App\\Page", "App\\Book22", "App\\Dto2"],
          ["App\\Responses\\Book2"]) := by decide +kernel
  obtain ⟨sdk, hsdk, hnames⟩ := toOption_map_eq_some.mp hrun
  obtain ⟨hdtos, hresponses⟩ := Prod.mk.inj hnames
  exact ⟨hk, sdk, hsdk, hdtos, hresponses, ((generate_embodies hk).2 sdk hsdk).1⟩

end Sdk
end Client
end SdkSmith
