import SdkSmith.Proofs.Client.Imports.ImportNames

/-!
The classes of a client have different names exactly if no class of a request or a resource has the
name of another kind of class. Each kind keeps its own names distinct and some keep clear of the
classes at fixed names, but no kind knows of the names of another, so it is the namespaces that have
to keep the kinds apart.
-/
namespace SdkSmith

variable {name tail : String}

theorem append_not_mem {names : List String} (h : ∀ w ∈ names, ¬ tail.toList <:+ w.toList)
    (name : String) : name ++ tail ∉ names := by
  intro hmem
  refine h _ hmem ?_
  rw [String.toList_append]
  exact List.suffix_append _ _

theorem ne_append (name : String) (h : tail ≠ "") : name ≠ name ++ tail := by
  intro heq
  have hlist := congrArg String.toList heq
  rw [String.toList_append, List.self_eq_append_right] at hlist
  exact h (String.toList_eq_nil_iff.mp hlist)

theorem Php.Import.namespace?_below (h : '\\' ∉ name.toList) (parent : String) :
    Import.namespace? (parent ++ ("\\" ++ name)) = some parent := by
  rw [← String.append_assoc, namespace?_path h]

namespace Settings

/-- Settings by which no two kinds of classes share a namespace, unless one keeps clear of the
other: resources have their own, and no namespace under that of requests is that of another kind. -/
structure SeparatesKinds (s : Settings) : Prop where
  resources : s.resourceNamespace ∉ [s.namespaceName, s.dtoNamespace, s.responseNamespace]
  requests : s.requestNamespace ≠ s.namespaceName
  under : ∀ n ∈ [s.dtoNamespace, s.responseNamespace, s.resourceNamespace],
    Php.Import.namespace? n ≠ some s.requestNamespace

variable {s : Settings}

theorem exists_append_subNamespace (s : Settings) (suffix : String) :
    ∃ tail, s.subNamespace suffix = s.namespaceName ++ tail := by
  simp only [subNamespace]
  split
  · exact ⟨"", String.append_empty.symm⟩
  · exact ⟨_, String.append_assoc⟩

/-- The root namespace is under no other of a client. -/
theorem namespace?_namespaceName_ne (s : Settings) (suffix : String) :
    Php.Import.namespace? s.namespaceName ≠ some (s.subNamespace suffix) := by
  intro hparent
  have hpath := Php.Import.path_of_namespace? hparent
  obtain ⟨tail, htail⟩ := exists_append_subNamespace s suffix
  rw [htail, String.append_assoc, String.append_assoc] at hpath
  refine ne_append s.namespaceName ?_ hpath.symm
  simp

theorem subNamespace_eq (s : Settings) (suffix : String) (h : Text.trimOf '\\' suffix = suffix)
    (hne : suffix.isEmpty = false) :
    s.subNamespace suffix = s.namespaceName ++ ("\\" ++ suffix) := by
  rw [subNamespace, h, hne, ← String.append_assoc]
  rfl

/-- The namespaces of settings that say nothing of them keep the kinds apart. -/
theorem separatesKinds_new (connectorName rootNamespace : String) :
    (new connectorName rootNamespace).SeparatesKinds := by
  generalize hs : new connectorName rootNamespace = s
  have hresource : s.resourceNamespace = s.namespaceName ++ ("\\" ++ "Resource") := by
    subst hs
    exact subNamespace_eq _ "Resource" (by decide) (by decide)
  have hrequest : s.requestNamespace = s.namespaceName ++ ("\\" ++ "Requests") := by
    subst hs
    exact subNamespace_eq _ "Requests" (by decide) (by decide)
  have hdto : s.dtoNamespace = s.namespaceName ++ ("\\" ++ "Dto") := by
    subst hs
    exact subNamespace_eq _ "Dto" (by decide) (by decide)
  have hresponse : s.responseNamespace = s.namespaceName ++ ("\\" ++ "Responses") := by
    subst hs
    exact subNamespace_eq _ "Responses" (by decide) (by decide)
  constructor
  case resources =>
    rw [hresource, hdto, hresponse, List.mem_cons, List.mem_cons, List.mem_singleton]
    rintro (hroot | hshared | hshared)
    · exact ne_append _ (by decide) hroot.symm
    · exact absurd ((String.append_right_inj _).mp hshared) (by decide)
    · exact absurd ((String.append_right_inj _).mp hshared) (by decide)
  case requests =>
    rw [hrequest]
    exact (ne_append _ (by decide)).symm
  case under =>
    have hclear : ∀ name ∈ ["Dto", "Responses", "Resource"], '\\' ∉ name.toList := by decide
    rw [hdto, hresponse, hresource, hrequest]
    intro n hn
    obtain ⟨name, hname, rfl⟩ := List.mem_map.mp (show n ∈ ["Dto", "Responses", "Resource"].map
      fun name => s.namespaceName ++ ("\\" ++ name) from hn)
    rw [Php.Import.namespace?_below (hclear name hname), ne_eq, Option.some_inj]
    exact ne_append _ (by decide)

end Settings

namespace Client
open Php (Import)

variable {d : Api.Description} {s : Settings} {r : Resource} {c : ClassRef} {sdk : Sdk}

/-! Kinds of classes -/

/-- The classes that every client has under the same name. -/
def fixedRefs (s : Settings) : List ClassRef := [
  ⟨s.namespaceName, "Resource"⟩, ⟨s.namespaceName, "Dto"⟩,
  ⟨s.namespaceName ++ "\\Contracts", "Deserializable"⟩,
  ⟨s.namespaceName ++ "\\Concerns", "HasFieldMap"⟩, ⟨s.namespaceName, connectorName s⟩
]

/-- The classes of schemas. -/
def schemaRefs (d : Api.Description) (s : Settings) : List ClassRef :=
  (dtoClasses d s).map (·.2)

/-- The classes of requests. -/
def requestRefs (d : Api.Description) (s : Settings) : List ClassRef :=
  (Plan.ofDescription d s).resources.flatMap fun r => r.calls.map (r.requestRef s)

/-- The classes of resources. -/
def resourceRefs (d : Api.Description) (s : Settings) : List ClassRef :=
  (Plan.ofDescription d s).resources.map fun r => r.classRef s

theorem fixedClasses_eq (s : Settings) :
    fixedClasses s = (fixedRefs s).map ClassRef.qualifiedName := by
  simp only [fixedClasses, fixedRefs, List.map_cons, List.map_nil, resourceBase_eq, dtoBase_eq,
    deserializable_eq, fieldMapTrait_eq, ClassRef.qualifiedName]

theorem own_schemas_perm (d : Api.Description) (s : Settings) :
    ((((schemaClasses d s).filter fun x => !d.components.isResponse x.1) ++
      (schemaClasses d s).filter fun x => d.components.isResponse x.1).map (·.2.1)).Perm
      (schemaRefs d s) := by
  rw [schemaRefs, ← refs_schemaClasses]
  exact (List.perm_append_comm.trans (List.filter_append_perm _ _)).map _

theorem own_headers (d : Api.Description) (s : Settings) : (headers d s).map (·.own) =
    (fixedRefs s).dropLast ++ (((((schemaClasses d s).filter fun x =>
      !d.components.isResponse x.1) ++ (schemaClasses d s).filter fun x =>
      d.components.isResponse x.1).map (·.2.1)) ++ (requestRefs d s ++ resourceRefs d s) ++
      [⟨s.namespaceName, connectorName s⟩]) := by
  simp only [headers, requestRefs, resourceRefs, List.map_append, List.map_map, List.map_flatMap,
    List.append_assoc, Function.comp_def, Header.ofDto, Header.ofRequest, Header.ofResource,
    Header.ofConnector, List.map_cons, List.map_nil, Header.ofResourceBase, Header.ofDtoBase,
    Header.ofContract, Header.ofTrait, fixedRefs, List.dropLast]

/-- The classes of a client's files are these; of those at fixed names, the connector is last. -/
theorem own_headers_perm (d : Api.Description) (s : Settings) : ((headers d s).map (·.own)).Perm
    (fixedRefs s ++ (schemaRefs d s ++ (requestRefs d s ++ resourceRefs d s))) := by
  have hfixed : fixedRefs s = (fixedRefs s).dropLast ++ [⟨s.namespaceName, connectorName s⟩] := rfl
  have hrest := (own_schemas_perm d s).append_right (requestRefs d s ++ resourceRefs d s)
  rw [own_headers, hfixed, List.dropLast_concat, List.append_assoc (fixedRefs s).dropLast]
  exact (List.perm_append_comm.trans (hrest.append_left _)).append_left _

/-- No class of a request or a resource is one at a fixed name, nor that of a schema, and none of a
request is one of a resource. -/
structure KeepsApart (d : Api.Description) (s : Settings) : Prop where
  fixed : ∀ c ∈ fixedRefs s, c ∉ requestRefs d s ++ resourceRefs d s
  schemas : ∀ c ∈ schemaRefs d s, c ∉ requestRefs d s ++ resourceRefs d s
  requests : ∀ c ∈ requestRefs d s, c ∉ resourceRefs d s

instance : Decidable (KeepsApart d s) :=
  decidable_of_iff ((∀ c ∈ fixedRefs s, c ∉ requestRefs d s ++ resourceRefs d s) ∧
    (∀ c ∈ schemaRefs d s, c ∉ requestRefs d s ++ resourceRefs d s) ∧
    ∀ c ∈ requestRefs d s, c ∉ resourceRefs d s)
    ⟨fun h => ⟨h.1, h.2.1, h.2.2⟩, fun h => ⟨h.fixed, h.schemas, h.requests⟩⟩

/-! Classes of one kind -/

/-- A connector that is accepted has the name of no base class. -/
theorem connectorName_not_mem (h : s.validate = .ok ()) :
    connectorName s ∉ Settings.baseClasses := by
  have hstudly : Naming.studlyCase s.connectorName ∉ Settings.baseClasses := by
    intro hmem
    have hcontains : Settings.baseClasses.contains (Naming.studlyCase s.connectorName) :=
      List.contains_iff_mem.mpr hmem
    unfold Settings.validate at h
    simp only [hcontains, if_true] at h
    split at h <;> cases h
  have hname : (if (Naming.studlyCase s.connectorName).isEmpty then "Unnamed"
      else Naming.studlyCase s.connectorName) ∉ Settings.baseClasses := by
    split
    · decide
    · exact hstudly
  have hsuffix : ∀ w ∈ Settings.baseClasses, ¬ "Connector".toList <:+ w.toList := by decide
  simp only [connectorName, Naming.className]
  generalize (if (Naming.studlyCase s.connectorName).isEmpty then "Unnamed"
    else Naming.studlyCase s.connectorName) = name at hname ⊢
  split
  · exact append_not_mem hsuffix name
  · exact hname

theorem nodup_fixedRefs (h : s.validate = .ok ()) : (fixedRefs s).Nodup := by
  have hconnector := connectorName_not_mem h
  have hcontracts : s.namespaceName ≠ s.namespaceName ++ "\\Contracts" := ne_append _ (by decide)
  have hconcerns : s.namespaceName ≠ s.namespaceName ++ "\\Concerns" := ne_append _ (by decide)
  rw [Settings.baseClasses, List.mem_cons, List.mem_singleton, not_or] at hconnector
  generalize hown : connectorName s = own at hconnector
  simp only [fixedRefs, hown]
  simp [hcontracts, hconcerns, Ne.symm hconnector.1, Ne.symm hconnector.2]

theorem nodup_schemaRefs (d : Api.Description) (s : Settings) : (schemaRefs d s).Nodup := by
  have hnames := (apart_dtoClasses d s).nodup
  rw [← Function.comp_def, ← List.map_map] at hnames
  exact hnames.of_map _

theorem Plan.nodup_requestClass (h : r ∈ (ofDescription d s).resources) :
    (r.calls.map (·.requestClass)).Nodup := by
  rw [ofDescription_resources] at h
  rw [(mem_grouped.mp h).2]
  exact (Resource.wellNamed_ofEndpoints s _ _).requestClasses

theorem Plan.nodup_className (d : Api.Description) (s : Settings) :
    ((ofDescription d s).resources.map (·.className)).Nodup := by
  rw [ofDescription_resources, classes_grouped]
  exact nodup_keysSeen _ _

theorem nodup_requestRefs (d : Api.Description) (s : Settings) : (requestRefs d s).Nodup := by
  rw [requestRefs, List.nodup_flatMap]
  refine ⟨fun r hr => List.Nodup.of_map ClassRef.name ?_, ?_⟩
  · rw [List.map_map]
    exact Plan.nodup_requestClass hr
  · -- requests of different resources are in different namespaces
    have hclasses := List.pairwise_map.mp (Plan.nodup_className d s)
    refine hclasses.imp fun {r r'} hne c hc hc' => hne ?_
    obtain ⟨call, -, rfl⟩ := List.mem_map.mp hc
    obtain ⟨call', -, heq⟩ := List.mem_map.mp hc'
    have hnamespace := congrArg ClassRef.namespaceName heq
    simp only [Resource.requestRef, Resource.requestNamespace, String.append_right_inj]
      at hnamespace
    exact hnamespace.symm

theorem nodup_resourceRefs (d : Api.Description) (s : Settings) : (resourceRefs d s).Nodup := by
  refine List.Nodup.of_map ClassRef.name ?_
  rw [resourceRefs, List.map_map]
  exact Plan.nodup_className d s

theorem disjoint_fixedRefs_schemaRefs (d : Api.Description) (s : Settings) :
    (fixedRefs s).Disjoint (schemaRefs d s) := by
  intro c hfixed hschema
  obtain ⟨x, hx, rfl⟩ := List.mem_map.mp hschema
  refine (apart_dtoClasses d s).free x hx ?_
  rw [fixedClasses_eq]
  exact List.mem_map_of_mem hfixed

/-- The classes of files are distinct exactly if the kinds keep apart. -/
theorem nodup_own_headers (h : s.validate = .ok ()) :
    ((headers d s).map (·.own)).Nodup ↔ KeepsApart d s := by
  rw [(own_headers_perm d s).nodup_iff, ← List.append_assoc, List.nodup_append',
    List.nodup_append', List.nodup_append', List.disjoint_append_left]
  constructor
  · rintro ⟨-, ⟨-, -, hrequests⟩, hfixed, hschemas⟩
    exact ⟨hfixed, hschemas, hrequests⟩
  · rintro ⟨hfixed, hschemas, hrequests⟩
    have hfirst : (fixedRefs s).Nodup ∧ (schemaRefs d s).Nodup ∧
        (fixedRefs s).Disjoint (schemaRefs d s) :=
      ⟨nodup_fixedRefs h, nodup_schemaRefs d s, disjoint_fixedRefs_schemaRefs d s⟩
    exact ⟨hfirst, ⟨nodup_requestRefs d s, nodup_resourceRefs d s, hrequests⟩, hfixed, hschemas⟩

/-- A class is told from another by its name. -/
theorem nodup_qualifiedName_headers (d : Api.Description) (s : Settings) :
    ((headers d s).map (·.own.qualifiedName)).Nodup ↔ ((headers d s).map (·.own)).Nodup := by
  have hmap : (headers d s).map (·.own.qualifiedName) =
      ((headers d s).map (·.own)).map ClassRef.qualifiedName := by
    rw [List.map_map]
    rfl
  have hclear : ∀ c ∈ (headers d s).map (·.own), '\\' ∉ c.name.toList :=
    List.forall_mem_map.mpr (clear_own d s)
  rw [hmap]
  refine ⟨fun hnodup => hnodup.of_map _, fun hnodup => hnodup.map_on fun c hc c' hc' heq => ?_⟩
  exact ClassRef.qualifiedName_inj (hclear c hc) (hclear c' hc') heq

/-! Namespaces -/

/-- A class at a fixed name is in the root namespace, or is one of the two that are not. -/
theorem namespaceName_fixedRefs (h : c ∈ fixedRefs s) : c.namespaceName = s.namespaceName ∨
    Import.namespace? c.namespaceName = some s.namespaceName ∧
      c.name ∈ ["Deserializable", "HasFieldMap"] := by
  have hcontracts : '\\' ∉ "Contracts".toList := by decide
  have hconcerns : '\\' ∉ "Concerns".toList := by decide
  rw [fixedRefs, List.mem_cons, List.mem_cons, List.mem_cons, List.mem_cons, List.mem_singleton]
    at h
  rcases h with rfl | rfl | rfl | rfl | rfl
  · exact Or.inl rfl
  · exact Or.inl rfl
  · exact Or.inr ⟨Import.namespace?_below hcontracts _, List.mem_cons_self⟩
  · exact Or.inr ⟨Import.namespace?_below hconcerns _, List.mem_cons_of_mem _ List.mem_cons_self⟩
  · exact Or.inl rfl

theorem namespaceName_schemaRefs (h : c ∈ schemaRefs d s) :
    c.namespaceName ∈ [s.dtoNamespace, s.responseNamespace] := by
  obtain ⟨x, hx, rfl⟩ := List.mem_map.mp h
  rw [namespaceName_dtoClasses d s x hx, dtoNamespaceOf]
  split
  · exact List.mem_cons_of_mem _ List.mem_cons_self
  · exact List.mem_cons_self

theorem namespaceName_requestRefs (h : c ∈ requestRefs d s) :
    Import.namespace? c.namespaceName = some s.requestNamespace := by
  obtain ⟨r, hr, hc⟩ := List.mem_flatMap.mp h
  obtain ⟨call, -, rfl⟩ := List.mem_map.mp hc
  exact Import.namespace?_path (Plan.clear_className hr) _

theorem namespaceName_resourceRefs (h : c ∈ resourceRefs d s) :
    c.namespaceName = s.resourceNamespace := by
  obtain ⟨r, -, rfl⟩ := List.mem_map.mp h
  rw [Resource.classRef]

/-- The class of a resource is not at a fixed name, unless that is what it gave way to. -/
theorem name_resourceRefs (h : c ∈ resourceRefs d s) (hfixed : c ∈ fixedRefs s) :
    ∃ name, c.name = name ++ "Resource" := by
  obtain ⟨r, hr, rfl⟩ := List.mem_map.mp h
  obtain ⟨e, -, he⟩ := Plan.exists_classOf hr
  have hmem : (r.classRef s).qualifiedName ∈ fixedClasses s := by
    rw [fixedClasses_eq]
    exact List.mem_map_of_mem hfixed
  rw [Resource.classRef, ← he, ClassRef.qualifiedName] at hmem
  rw [Resource.classRef, ← he]
  simp only [classOf, resourceClassOf] at hmem ⊢
  split
  · exact ⟨_, rfl⟩
  · rename_i hfree
    rw [if_neg hfree] at hmem
    exact absurd (List.contains_iff_mem.mpr hmem) hfree

/-- Namespaces that keep the kinds apart keep the classes apart, whatever the description. -/
theorem keepsApart_of_separatesKinds (h : s.SeparatesKinds) (d : Api.Description) :
    KeepsApart d s := by
  constructor
  case fixed =>
    intro c hfixed hc
    rcases List.mem_append.mp hc with hc | hc
    · have hparent := namespaceName_requestRefs hc
      rcases namespaceName_fixedRefs hfixed with hroot | ⟨hroot, -⟩
      · rw [hroot] at hparent
        exact s.namespace?_namespaceName_ne _ hparent
      · exact h.requests (Option.some.inj (hparent.symm.trans hroot))
    · obtain ⟨name, hname⟩ := name_resourceRefs hc hfixed
      rcases namespaceName_fixedRefs hfixed with hroot | ⟨-, hother⟩
      · refine h.resources ?_
        rw [← namespaceName_resourceRefs hc, hroot]
        exact List.mem_cons_self
      · rw [hname] at hother
        exact append_not_mem (by decide) name hother
  case schemas =>
    intro c hschema hc
    have hnamespace := namespaceName_schemaRefs hschema
    rcases List.mem_append.mp hc with hc | hc
    · exact h.under _ (List.mem_append_left [_] hnamespace) (namespaceName_requestRefs hc)
    · rw [namespaceName_resourceRefs hc] at hnamespace
      exact h.resources (List.mem_cons_of_mem _ hnamespace)
  case requests =>
    intro c hrequest hc
    have hparent := namespaceName_requestRefs hrequest
    rw [namespaceName_resourceRefs hc] at hparent
    exact h.under _ (by simp) hparent

/-! Clients -/

/-- Data classes and resources in the root namespace. -/
def flat : Settings :=
  { Settings.new "Acme" "App" with dtoSuffix := "", resourceSuffix := "" }

/-- Objects of one field, and a collection that gives one of them. -/
def shelf (schemas : List String) (collection : String) : Api.Description :=
  { Api.Description.empty with
    components := ⟨[], schemas.map fun name =>
      (name, .object name [("id", .scalar "id" .int)] []), []⟩
    endpoints := [{ Api.Endpoint.plain "get one" .get "/" with collection := some collection }] }

namespace Sdk

/-- The classes of a client's files have different names exactly if no class of a request or a
resource has that of another kind. Namespaces that separate the kinds make sure of it, whatever is
described. -/
theorem generate_keepsApart (h : generate d s = .ok sdk) :
    ((sdk.files.map (·.qualifiedName)).Nodup ↔ KeepsApart d s) ∧
    (s.SeparatesKinds → (sdk.files.map (·.qualifiedName)).Nodup) := by
  have hnodup : (sdk.files.map (·.qualifiedName)).Nodup ↔ KeepsApart d s := by
    rw [qualifiedName_files h, nodup_qualifiedName_headers,
      nodup_own_headers (generate_eq_ok h).1]
  exact ⟨hnodup, fun hseparates => hnodup.mpr (keepsApart_of_separatesKinds hseparates d)⟩

/-- In one namespace, data classes and a resource give way to the classes at fixed names; in their
own, schema and collection may have one name. -/
theorem generate_shelf_keepsApart : ∃ sdk sdk',
    generate (shelf ["Dto", "Acme"] "Resource") flat = .ok sdk ∧
    sdk.files.map (·.qualifiedName) = ["App\\Resource", "App\\Dto",
      "App\\Contracts\\Deserializable", "App\\Concerns\\HasFieldMap", "App\\Dto2", "App\\Acme2",
      "App\\Requests\\ResourceResource\\GetOne", "App\\ResourceResource", "App\\Acme"] ∧
    (sdk.files.map (·.qualifiedName)).Nodup ∧
    generate (shelf ["user"] "user") (.new "Acme" "App") = .ok sdk' ∧
    (sdk'.files.map (·.qualifiedName)).Nodup := by
  have hrun : (generate (shelf ["Dto", "Acme"] "Resource") flat).toOption.map
      (fun sdk => sdk.files.map (·.qualifiedName)) = some ["App\\Resource", "App\\Dto",
        "App\\Contracts\\Deserializable", "App\\Concerns\\HasFieldMap", "App\\Dto2", "App\\Acme2",
        "App\\Requests\\ResourceResource\\GetOne", "App\\ResourceResource", "App\\Acme"] := by
    decide +kernel
  have hrun' : (generate (shelf ["user"] "user") (.new "Acme" "App")).toOption.map
      (fun sdk => sdk.files.length) = some 8 := by decide +kernel
  have hapart : KeepsApart (shelf ["Dto", "Acme"] "Resource") flat := by decide +kernel
  obtain ⟨sdk, hsdk, hnames⟩ := toOption_map_eq_some.mp hrun
  obtain ⟨sdk', hsdk', -⟩ := toOption_map_eq_some.mp hrun'
  exact ⟨sdk, sdk', hsdk, hnames, (generate_keepsApart hsdk).1.mpr hapart, hsdk',
    (generate_keepsApart hsdk').2 (Settings.separatesKinds_new "Acme" "App")⟩

/-- In one namespace, the class of a schema and that of a resource have one name. -/
theorem generate_shelf_shares : flat.validate = .ok () ∧
    ∃ sdk, generate (shelf ["user"] "user") flat = .ok sdk ∧
      sdk.files.map (·.qualifiedName) = ["App\\Resource", "App\\Dto",
        "App\\Contracts\\Deserializable", "App\\Concerns\\HasFieldMap", "App\\User",
        "App\\Requests\\User\\GetOne", "App\\User", "App\\Acme"] ∧
      ¬ (sdk.files.map (·.qualifiedName)).Nodup := by
  have hrun : (generate (shelf ["user"] "user") flat).toOption.map
      (fun sdk => sdk.files.map (·.qualifiedName)) = some ["App\\Resource", "App\\Dto",
        "App\\Contracts\\Deserializable", "App\\Concerns\\HasFieldMap", "App\\User",
        "App\\Requests\\User\\GetOne", "App\\User", "App\\Acme"] := by decide +kernel
  obtain ⟨sdk, hsdk, hnames⟩ := toOption_map_eq_some.mp hrun
  refine ⟨(generate_eq_ok hsdk).1, sdk, hsdk, hnames, ?_⟩
  rw [hnames]
  decide

end Sdk
end Client
end SdkSmith
