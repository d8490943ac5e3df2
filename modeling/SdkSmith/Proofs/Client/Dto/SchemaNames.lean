import SdkSmith.Proofs.Client.Sdk.Collisions
import SdkSmith.Proofs.Naming.Identifiers

/-!
The class names of schemas. Each is given beside those before it and the fixed classes of its
namespace, so no two schemas have the same one, even in different namespaces, and none has that of a
fixed class.
-/
namespace SdkSmith.Client
open Naming (IsAlphanum)

variable {d : Api.Description} {s : Settings} {classes : DtoClasses} {c : ClassRef}
  {name schema : String}

theorem isAlphanum_freshDtoName (s : Settings) (namespaceName : String) (taken : List String)
    (schema : String) : IsAlphanum (freshDtoName s namespaceName taken schema) := by
  have hsuffix : IsAlphanum "Dto" := Naming.isAlphanum_of_all (by decide)
  exact (Naming.isAlphanum_className hsuffix schema).freshNumbered _

/-- A class name is given beside those that are taken and the fixed classes of its namespace. -/
theorem freshDtoName_free (s : Settings) (namespaceName : String) (taken : List String)
    (schema : String) : freshDtoName s namespaceName taken schema ∉ taken ∧
      (ClassRef.mk namespaceName (freshDtoName s namespaceName taken schema)).qualifiedName ∉
        fixedClasses s := by
  have hfree := Naming.freshNumbered_not_mem
    (taken ++ (fixedClasses s).filterMap (Text.afterLead? (namespaceName ++ "\\")))
    (Naming.className schema "Dto")
  refine ⟨fun hmem => hfree (List.mem_append_left _ hmem), fun hfixed => hfree ?_⟩
  refine List.mem_append_right _ (List.mem_filterMap.mpr ⟨_, hfixed, ?_⟩)
  exact Text.afterLead?_eq_some.mpr rfl

/-- What holds of the classes of any schemas. -/
structure DtoClasses.Apart (s : Settings) (classes : DtoClasses) : Prop where
  nodup : (classes.map fun x => x.2.name).Nodup
  isAlphanum : ∀ x ∈ classes, IsAlphanum x.2.name
  free : ∀ x ∈ classes, x.2.qualifiedName ∉ fixedClasses s

theorem DtoClasses.apart_nil (s : Settings) : Apart s [] :=
  ⟨List.nodup_nil, List.forall_mem_nil _, List.forall_mem_nil _⟩

theorem DtoClasses.Apart.add (h : Apart s classes) (namespaceName name : String) :
    Apart s (classes ++ [(name, ⟨namespaceName,
      freshDtoName s namespaceName (classes.map fun x => x.2.name) name⟩)]) := by
  have hfree := freshDtoName_free s namespaceName (classes.map fun x => x.2.name) name
  constructor
  case nodup =>
    rw [List.map_append, List.map_singleton, ← List.concat_eq_append]
    exact h.nodup.concat hfree.1
  case isAlphanum =>
    refine List.forall_mem_append.mpr ⟨h.isAlphanum, List.forall_mem_singleton.mpr ?_⟩
    exact isAlphanum_freshDtoName s namespaceName _ name
  case free =>
    exact List.forall_mem_append.mpr ⟨h.free, List.forall_mem_singleton.mpr hfree.2⟩

theorem apart_dtoClasses (d : Api.Description) (s : Settings) : (dtoClasses d s).Apart s := by
  refine List.foldlRecOn (motive := DtoClasses.Apart s) _ _ (DtoClasses.apart_nil s) ?_
  intro classes hclasses x _
  exact hclasses.add (dtoNamespaceOf d s x.1) x.1

/-- The classes of schemas are in the namespaces of these. -/
theorem namespaceName_dtoClasses (d : Api.Description) (s : Settings) :
    ∀ x ∈ dtoClasses d s, x.2.namespaceName = dtoNamespaceOf d s x.1 := by
  refine List.foldlRecOn (motive := fun classes : DtoClasses =>
    ∀ x ∈ classes, x.2.namespaceName = dtoNamespaceOf d s x.1) _ _ (List.forall_mem_nil _) ?_
  intro classes hclasses x _
  exact List.forall_mem_append.mpr ⟨hclasses, List.forall_mem_singleton.mpr rfl⟩

/-! Schemas that have a class -/

/-- A schema with a class is one that has its file. -/
theorem mem_schemaClasses (h : (name, c) ∈ dtoClasses d s) :
    ∃ schema, (name, c, schema) ∈ schemaClasses d s := by
  obtain ⟨schema, hschema⟩ := find?_of_mem_dtoClasses h
  refine ⟨schema, List.mem_filterMap.mpr ⟨(name, c), h, ?_⟩⟩
  exact Option.map_eq_some_iff.mpr ⟨schema, hschema, rfl⟩

/-- The classes that have files are those of the schemas. -/
theorem refs_schemaClasses (d : Api.Description) (s : Settings) :
    (schemaClasses d s).map (·.2.1) = (dtoClasses d s).map (·.2) := by
  rw [schemaClasses, List.map_filterMap, ← List.filterMap_eq_map]
  refine List.filterMap_congr fun x hx => ?_
  obtain ⟨schema, hschema⟩ := find?_of_mem_dtoClasses hx
  simp only [hschema, Option.map_some, Function.comp_apply]

end SdkSmith.Client
