import SdkSmith.Proofs.Client.Imports.TracedFiles

/-!
References between the classes of a client. Whatever a file imports, and whatever its code names, is
a class that is generated with it or one of those of Saloon that clients are built on.
-/
namespace SdkSmith

namespace Php.File

/-- What a class name may mean in a file: the classes that are imported under the name, or without
such an import the class of the name in the file's own namespace. -/
def meanings (f : File) (name : String) : List String :=
  let imported := (f.imports.filter fun i => i.visible == name).map (·.path)
  if imported.isEmpty then [f.namespaceName ++ "\\" ++ name] else imported

/-- A name that stands for a class means this class, unless it means an import. -/
theorem mem_meanings {f : File} {name path meant : String} (h : f.Introduces name path)
    (hmeant : meant ∈ f.meanings name) : meant = path ∨ ∃ i ∈ f.imports, i.path = meant := by
  unfold meanings at hmeant
  simp only at hmeant
  split at hmeant
  · rename_i hnone
    rw [List.isEmpty_iff, List.map_eq_nil_iff, List.filter_eq_nil_iff] at hnone
    rcases h with ⟨i, hi, hvisible, -⟩ | hown
    · exact absurd (beq_iff_eq.mpr hvisible) (hnone i hi)
    · exact Or.inl ((List.mem_singleton.mp hmeant).trans hown)
  · obtain ⟨i, hi, hpath⟩ := List.mem_map.mp hmeant
    exact Or.inr ⟨i, (List.mem_filter.mp hi).1, hpath⟩

end Php.File

namespace Client
open Php (File)

variable {d : Api.Description} {s : Settings} {sdk : Sdk} {path : String}

/-- The classes of Saloon that clients are built on. -/
def saloonClasses : List String := [
  "Saloon\\Http\\Connector", "Saloon\\Http\\Request", "Saloon\\Http\\Response",
  "Saloon\\Enums\\Method", "Saloon\\Contracts\\Body\\HasBody",
  "Saloon\\Traits\\Body\\HasJsonBody", "Saloon\\Http\\Auth\\HeaderAuthenticator",
  "Saloon\\Http\\Auth\\QueryAuthenticator"
]

/-- Whether a path is that of a class of Saloon or of the client. -/
def Sdk.Knows (sdk : Sdk) (path : String) : Prop :=
  path ∈ saloonClasses ∨ ∃ f ∈ sdk.files, f.qualifiedName = path

/-- Whether a path is that of a class of Saloon or of one that has a header. -/
def IsHeaded (d : Api.Description) (s : Settings) (path : String) : Prop :=
  path ∈ saloonClasses ∨ ∃ x ∈ headers d s, x.own.qualifiedName = path

/-! Headers -/

theorem isHeaded_dtoBase (d : Api.Description) (s : Settings) : IsHeaded d s (dtoBase s) :=
  Or.inr ⟨.ofDtoBase s, mem_headers_fixed (by simp), (dtoBase_eq s).symm⟩

theorem isHeaded_resourceBase (d : Api.Description) (s : Settings) :
    IsHeaded d s (resourceBase s) :=
  Or.inr ⟨.ofResourceBase s, mem_headers_fixed (by simp), (resourceBase_eq s).symm⟩

theorem mem_saloonClasses_authImport (carrier : Carrier) :
    carrier.authImport.path ∈ saloonClasses := by
  cases carrier with
  | header => decide
  | query => decide

/-- The classes at fixed names that a header refers to are of Saloon or have a header. -/
theorem isHeaded_fixed (d : Api.Description) (s : Settings) :
    ∀ x ∈ headers d s, ∀ i ∈ x.fixed, IsHeaded d s i.path := by
  have hsaloon : ∀ path ∈ saloonClasses, IsHeaded d s path := fun _ => Or.inl
  have hresponse : IsHeaded d s "Saloon\\Http\\Response" := hsaloon _ (by decide)
  refine forall_headers ?_ ?_ (List.forall_mem_nil _) (List.forall_mem_nil _) ?_ ?_ ?_ ?_
  · exact List.forall_mem_singleton.mpr (hsaloon _ (by decide))
  · refine List.forall_mem_cons.mpr ⟨?_, List.forall_mem_singleton.mpr ?_⟩
    · exact Or.inr ⟨.ofContract s, mem_headers_fixed (by simp), (deserializable_eq s).symm⟩
    · exact Or.inr ⟨.ofTrait s, mem_headers_fixed (by simp), (fieldMapTrait_eq s).symm⟩
  · exact fun x _ => List.forall_mem_singleton.mpr (isHeaded_dtoBase d s)
  · intro r _ c _ i hi
    have hrequest : ∀ i ∈ requestImports, i.path ∈ saloonClasses := by decide
    have hmem := (fixed_ofRequest_sublist d s (dtoClasses d s) r c).subset hi
    exact hsaloon _ (hrequest i hmem)
  · exact fun r _ => List.forall_mem_cons.mpr ⟨isHeaded_resourceBase d s,
      List.forall_mem_singleton.mpr hresponse⟩
  · have hbase : IsHeaded d s "Saloon\\Http\\Connector" := hsaloon _ (by decide)
    refine List.forall_mem_cons.mpr ⟨hbase, List.forall_mem_map.mpr ?_⟩
    exact fun carrier _ => hsaloon _ (mem_saloonClasses_authImport carrier)

/-- What a header refers to is of Saloon or has a header. -/
theorem isHeaded_uses (d : Api.Description) (s : Settings) :
    ∀ x ∈ headers d s, ∀ path ∈ x.usage.uses.map (·.2), IsHeaded d s path := by
  have hclasses : ∀ x ∈ headers d s, ∀ c ∈ x.classes, IsHeaded d s c.qualifiedName := by
    refine forall_classes_headers (P := fun c => IsHeaded d s c.qualifiedName) ?_ ?_ ?_
    · intro y hy
      obtain ⟨x, hx, hown⟩ := exists_header_of_schema hy
      exact Or.inr ⟨x, hx, congrArg ClassRef.qualifiedName hown⟩
    · exact fun r hr c hc => Or.inr ⟨_, mem_headers_request hr hc, rfl⟩
    · exact fun r hr => Or.inr ⟨_, mem_headers_resource hr, rfl⟩
  intro x hx path hpath
  rw [Header.paths_usage, List.mem_append] at hpath
  rcases hpath with hpath | hpath
  · obtain ⟨i, hi, rfl⟩ := List.mem_map.mp hpath
    exact isHeaded_fixed d s x hx i hi
  · obtain ⟨c, hc, rfl⟩ := List.mem_map.mp hpath
    exact hclasses x hx c hc

/-! Clients -/

namespace Sdk

/-- Each class that has a header has a file. -/
theorem knows_of_isHeaded (h : generate d s = .ok sdk) (hpath : IsHeaded d s path) :
    sdk.Knows path := by
  refine hpath.imp_right fun ⟨x, hx, hown⟩ => ?_
  have hfile : x.own.qualifiedName ∈ sdk.files.map (·.qualifiedName) := by
    rw [qualifiedName_files h]
    exact List.mem_map_of_mem hx
  rw [hown] at hfile
  exact List.mem_map.mp hfile

/-- Each class that a file of a client imports is one of Saloon or of the client, and so is each
that its code names: as its parent, a contract or a trait, in a type, as the class that a member is
or lists, or as the class of a response, a request or a resource, be it imported or in the namespace
of the file. -/
theorem generate_refers (h : generate d s = .ok sdk) :
    ∀ f ∈ sdk.files, (∀ i ∈ f.imports, sdk.Knows i.path) ∧
      ∀ name ∈ f.declaration.classNames, ∀ path ∈ f.meanings name, sdk.Knows path := by
  intro f hf
  obtain ⟨x, hx, htraces⟩ := exists_left_of_mem (generate_traces h) hf
  have hgrounded := x.grounded (clear_classes_headers d s x hx)
  have hknown : ∀ path ∈ x.usage.uses.map (·.2), sdk.Knows path := fun path hpath =>
    knows_of_isHeaded h (isHeaded_uses d s x hx path hpath)
  have himports : ∀ i ∈ f.imports, sdk.Knows i.path := by
    intro i hi
    exact hknown _ (hgrounded.imports i (htraces.imports ▸ hi))
  refine ⟨himports, fun name hname path hpath => ?_⟩
  obtain ⟨use, huse, rfl⟩ := List.mem_map.mp (htraces.refers hname)
  have hstands : f.Introduces use.1 use.2 := by
    have hintroduces := hgrounded.introduces use huse
    rwa [File.Introduces, ← htraces.imports, ← htraces.namespaceName] at hintroduces
  rcases Php.File.mem_meanings hstands hpath with rfl | ⟨i, hi, rfl⟩
  · exact hknown _ (List.mem_map_of_mem huse)
  · exact himports i hi

/-- Persons, who know one another, with pets of which nothing is known. -/
def persons : Api.Description :=
  { Api.Description.empty with
    components := ⟨[], [("person", .object "person" [("name", .scalar "name" .string),
      ("boss", .scalar "boss" (.named "person")),
      ("friends", .array "friends" (.scalar "friend" (.named "person")) false),
      ("pet", .scalar "pet" (.named "animal"))] [])], []⟩
    endpoints := [{ Api.Endpoint.plain "get person" .get "/persons/:id" with
      collection := some "persons"
      responses := [⟨"200", some "person"⟩] }] }

/-- Settings that put data classes beside the base classes. -/
def level : Settings := { Settings.new "Acme" "App" with dtoSuffix := "" }

/-- A data class refers to its base class and to itself without any import. -/
theorem generate_persons_refers : ∃ sdk, generate persons level = .ok sdk ∧
    sdk.dtos.map (fun f => f.declaration.classNames) = [["Dto", "Person", "Person", "Person"]] ∧
    sdk.dtos.map (fun f => f.meanings "Dto" ++ f.meanings "Person") =
      [["App\\Dto", "App\\Person"]] ∧
    ∀ f ∈ sdk.files, (∀ i ∈ f.imports, sdk.Knows i.path) ∧
      ∀ name ∈ f.declaration.classNames, ∀ path ∈ f.meanings name, sdk.Knows path := by
  have hrun : (generate persons level).toOption.map (fun sdk => sdk.dtos.map fun f =>
      (f.declaration.classNames, f.meanings "Dto" ++ f.meanings "Person")) =
      some [(["Dto", "Person", "Person", "Person"], ["App\\Dto", "App\\Person"])] := by
    decide +kernel
  obtain ⟨sdk, hsdk, hdtos⟩ := toOption_map_eq_some.mp hrun
  refine ⟨sdk, hsdk, ?_, ?_, generate_refers hsdk⟩
  · have hnames := congrArg (List.map Prod.fst) hdtos
    rwa [List.map_map] at hnames
  · have hmeanings := congrArg (List.map Prod.snd) hdtos
    rwa [List.map_map] at hmeanings

end Sdk
end Client
end SdkSmith
