import SdkSmith.Proofs.Client.Dto.ObjectFiles
import SdkSmith.Proofs.Client.Imports.HeaderNames
import SdkSmith.Proofs.Naming.LegalNames
import SdkSmith.Proofs.Output.Paths

/-!
Where the classes of a client go. The settings say in which directory, for each kind of class; a
description adds no more than the names of classes, which are steps of their own, and so leads
nowhere else.
-/
namespace SdkSmith

/-- The directory, below that of the output, for the namespace of a suffix. -/
def Settings.directory (suffix : String) : String :=
  Output.directoryOf (Text.trimOf '\\' suffix)

namespace Client
open Naming (IsClassName)
open Output (IsStep belowRoot directoryOf isAbsolute join relativePath stepsOf)
open Php (File)

variable {d : Api.Description} {s : Settings} {u : Usage} {f : File} {x : Header} {r : Resource}
  {c : Call} {name suffix directory : String} {below : List String} {sdk : Sdk}

/-- Whether a class goes to a directory, or below it as far as there are names of classes for
further steps. -/
structure PlacedIn (s : Settings) (directory : String) (below : List String) (f : File) : Prop where
  names : ∀ n ∈ below ++ [f.declaration.name], IsClassName n
  path : relativePath f s.namespaceName =
    (below ++ [f.declaration.name ++ ".php"]).foldl join directory
  steps : stepsOf (relativePath f s.namespaceName) =
    stepsOf directory ++ below ++ [f.declaration.name ++ ".php"]
  noParent : ".." ∉ below ++ [f.declaration.name ++ ".php"]
  absolute : isAbsolute (relativePath f s.namespaceName) = isAbsolute directory

/-- Whether each class of a client goes to the directory that the settings have for its kind, and a
request to one there of the class of its resource. -/
structure Confined (d : Api.Description) (s : Settings) (sdk : Sdk) : Prop where
  connector : PlacedIn s "" [] sdk.connector
  resourceBase : PlacedIn s "" [] sdk.resourceBase
  support : List.Forall₂ (fun directory f => PlacedIn s directory [] f)
    ["", "Contracts", "Concerns"] sdk.support
  dtos : ∀ f ∈ sdk.dtos, PlacedIn s (Settings.directory s.dtoSuffix) [] f
  responses : ∀ f ∈ sdk.responses, PlacedIn s (Settings.directory s.responseSuffix) [] f
  requests : ∀ f ∈ sdk.requests, ∃ r ∈ (Plan.ofDescription d s).resources, ∃ c ∈ r.calls,
    f = requestFile d s (dtoClasses d s) r c ∧
    PlacedIn s (Settings.directory s.requestSuffix) [r.className] f
  resources : ∀ f ∈ sdk.resources, PlacedIn s (Settings.directory s.resourceSuffix) [] f

/-! Names -/

theorem isStep_of_isClassName (h : IsClassName name) : IsStep name := by
  constructor
  · rintro rfl
    obtain ⟨c, r, hname, -⟩ := h
    cases hname
  · intro hslash
    cases h.isAlphanum _ hslash

theorem isStep_file (h : IsClassName name) : IsStep (name ++ ".php") := by
  have hstep := isStep_of_isClassName h
  constructor
  · intro hempty
    exact hstep.ne_empty (String.append_eq_empty_iff.mp hempty).1
  · rw [String.toList_append, List.mem_append]
    rintro (hslash | hslash)
    · exact hstep.no_slash hslash
    · revert hslash
      decide

theorem ne_parent_of_isClassName (h : IsClassName name) (tail : String) : name ++ tail ≠ ".." := by
  obtain ⟨c, r, hname, hc, -⟩ := h
  intro heq
  rw [← String.toList_inj, String.toList_append, hname] at heq
  obtain ⟨rfl, -⟩ := List.cons.inj heq
  cases hc

theorem isClassName_connectorName (s : Settings) : IsClassName (connectorName s) :=
  Naming.isClassName_className (Naming.isAlphanum_of_all (by decide)) s.connectorName

theorem Plan.isClassName_className (h : r ∈ (ofDescription d s).resources) :
    IsClassName r.className := by
  obtain ⟨e, -, he⟩ := exists_classOf h
  obtain ⟨tail, htail, heq⟩ := resourceClassOf_eq s (labelOf s e)
  have hsuffix : Naming.IsAlphanum "Resource" := Naming.isAlphanum_of_all (by decide)
  rw [← he, classOf, heq]
  exact (Naming.isClassName_className hsuffix (labelOf s e)).append htail

theorem Plan.isClassName_requestClass (hr : r ∈ (ofDescription d s).resources)
    (hc : c ∈ r.calls) : IsClassName c.requestClass := by
  obtain ⟨method, tail, taken, htail, heq⟩ := exists_requestClass hr hc
  have hsuffix : Naming.IsAlphanum "Request" := Naming.isAlphanum_of_all (by decide)
  rw [heq]
  exact ((Naming.isClassName_className hsuffix method).append htail).freshNumbered taken

theorem isClassName_of_isClassOf {namespaceName : String} {x : String × Api.Schema}
    (h : IsClassOf namespaceName x f) : IsClassName f.declaration.name := by
  have hsuffix : Naming.IsAlphanum "Dto" := Naming.isAlphanum_of_all (by decide)
  have hname := Naming.isClassName_className hsuffix x.1
  rcases h.name with heq | ⟨n, heq⟩
  · rwa [heq]
  · rw [heq]
    exact hname.numbered n

/-! Namespaces -/

theorem file_foldl_add (cs : List ClassRef) (suffix : String) (u : Usage) :
    (cs.foldl (Usage.add suffix) u).file.namespaceName = u.file.namespaceName ∧
      (cs.foldl (Usage.add suffix) u).file.declaration = u.file.declaration := by
  induction cs generalizing u with
  | nil => exact ⟨rfl, rfl⟩
  | cons c cs ih =>
    obtain ⟨hnamespace, hdeclaration⟩ := ih (u.add suffix c)
    rw [List.foldl_cons, hnamespace, hdeclaration, Usage.add, namespaceName_importClass,
      declaration_importClass]
    exact ⟨rfl, rfl⟩

/-- A file of a header is in the namespace of the header's class, and has its name. -/
theorem Traces.own (h : Traces x.usage f) :
    f.namespaceName = x.own.namespaceName ∧ f.declaration.name = x.own.name := by
  obtain ⟨hnamespace, hdeclaration⟩ := file_foldl_add x.classes x.suffix
    (x.fixed.foldl Usage.fix (.empty x.own))
  have hfixed := (foldl_fix_file x.fixed (.empty x.own)).1
  rw [h.namespaceName, h.name, Header.usage, hnamespace, hdeclaration, hfixed,
    namespaceName_foldl_addImport, Php.File.declaration_foldl_addImport]
  exact ⟨rfl, rfl⟩

theorem trimmed_namespaceName (s : Settings) :
    Text.Trimmed (· == '\\') s.namespaceName.toList := by
  rw [Settings.namespaceName]
  exact Text.trimmed_trimOf _ _

theorem trimmed_of_isClassName (h : IsClassName name) : Text.Trimmed (· == '\\') name.toList := by
  have hclear := clear_of_isAlphanum h.isAlphanum
  constructor
  · intro c hc
    rw [beq_eq_false_iff_ne]
    rintro rfl
    exact hclear (List.mem_of_head? hc)
  · intro c hc
    rw [beq_eq_false_iff_ne]
    rintro rfl
    exact hclear (List.mem_of_getLast? hc)

/-- The namespace of a suffix has the suffix below the root. -/
theorem belowRoot_subNamespace (s : Settings) (suffix : String) :
    belowRoot s.namespaceName (Text.trimOf '\\' (s.subNamespace suffix)) =
      Text.trimOf '\\' suffix := by
  simp only [Settings.subNamespace]
  split
  · rename_i hempty
    rw [String.isEmpty_iff] at hempty
    rw [Text.trimOf_eq_self (trimmed_namespaceName s), Output.belowRoot_self, hempty]
  · rename_i hne
    rw [String.isEmpty_iff] at hne
    exact Output.belowRoot_trimOf (trimmed_namespaceName s) (Text.trimmed_trimOf '\\' suffix) hne

/-- One more name in a namespace is one more directory. -/
theorem directoryOf_below_subNamespace (h : IsClassName name) (s : Settings) (suffix : String) :
    directoryOf (belowRoot s.namespaceName
      (Text.trimOf '\\' (s.subNamespace suffix ++ "\\" ++ name))) =
        join (Settings.directory suffix) name := by
  have hne := (isStep_of_isClassName h).ne_empty
  have hname := trimmed_of_isClassName h
  rw [Settings.directory]
  simp only [Settings.subNamespace]
  split
  · rename_i hempty
    rw [String.isEmpty_iff] at hempty
    rw [Output.belowRoot_trimOf (trimmed_namespaceName s) hname hne, hempty]
    exact Output.directoryOf_eq_self hne (clear_of_isAlphanum h.isAlphanum)
  · rename_i hsuffix
    rw [String.isEmpty_iff] at hsuffix
    have hbelow := Text.trimmed_append (Text.trimmed_trimOf '\\' suffix) hname hsuffix hne
    have hne' : Text.trimOf '\\' suffix ++ "\\" ++ name ≠ "" := by
      intro hempty
      exact hne (String.append_eq_empty_iff.mp hempty).2
    have hassoc : s.namespaceName ++ "\\" ++ Text.trimOf '\\' suffix ++ "\\" ++ name =
        s.namespaceName ++ "\\" ++ (Text.trimOf '\\' suffix ++ "\\" ++ name) := by
      simp only [String.append_assoc]
    rw [hassoc, Output.belowRoot_trimOf (trimmed_namespaceName s) hbelow hne']
    exact Output.directoryOf_append _ hne (clear_of_isAlphanum h.isAlphanum)

/-! Files -/

/-- What the path of a class follows from. -/
theorem placedIn_of_path (hnames : ∀ n ∈ below ++ [f.declaration.name], IsClassName n)
    (hpath : relativePath f s.namespaceName =
      (below ++ [f.declaration.name ++ ".php"]).foldl join directory) :
    PlacedIn s directory below f := by
  obtain ⟨hbelow, hname⟩ := List.forall_mem_append.mp hnames
  rw [List.forall_mem_singleton] at hname
  have hsteps : ∀ n ∈ below ++ [f.declaration.name ++ ".php"], IsStep n := by
    rw [List.forall_mem_append, List.forall_mem_singleton]
    exact ⟨fun n hn => isStep_of_isClassName (hbelow n hn), isStep_file hname⟩
  constructor
  case names => exact hnames
  case path => exact hpath
  case steps => rw [hpath, Output.stepsOf_foldl_join hsteps, List.append_assoc]
  case absolute => rw [hpath, Output.isAbsolute_foldl_join hsteps]
  case noParent =>
    rw [List.mem_append, List.mem_singleton]
    rintro (hparent | hparent)
    · exact ne_parent_of_isClassName (hbelow ".." hparent) "" (String.append_empty)
    · exact ne_parent_of_isClassName hname ".php" hparent.symm

/-- A class in the namespace of a suffix goes to the directory of the suffix. -/
theorem placedIn_subNamespace (hnamespace : f.namespaceName = s.subNamespace suffix)
    (hname : IsClassName f.declaration.name) :
    PlacedIn s (Settings.directory suffix) [] f := by
  refine placedIn_of_path (List.forall_mem_singleton.mpr hname) ?_
  rw [Output.relativePath_eq, Text.trimOf_eq_self (trimmed_namespaceName s), hnamespace,
    belowRoot_subNamespace]
  rfl

theorem placedIn_root (hnamespace : f.namespaceName = s.namespaceName)
    (hname : IsClassName f.declaration.name) : PlacedIn s "" [] f := by
  have htrim : Text.trimOf '\\' "" = "" := by decide +kernel
  have hdirectory : Settings.directory "" = "" := by decide +kernel
  have hroot : s.subNamespace "" = s.namespaceName := by
    simp only [Settings.subNamespace, htrim]
    exact if_pos rfl
  rw [← hdirectory]
  exact placedIn_subNamespace (hnamespace.trans hroot.symm) hname

/-- A class in a namespace there goes to a directory there. -/
theorem placedIn_below (hnamespace : f.namespaceName = s.subNamespace suffix ++ "\\" ++ name)
    (hbelow : IsClassName name) (hname : IsClassName f.declaration.name) :
    PlacedIn s (Settings.directory suffix) [name] f := by
  refine placedIn_of_path
    (List.forall_mem_cons.mpr ⟨hbelow, List.forall_mem_singleton.mpr hname⟩) ?_
  rw [Output.relativePath_eq, Text.trimOf_eq_self (trimmed_namespaceName s), hnamespace,
    directoryOf_below_subNamespace hbelow]
  rfl

theorem placedIn_requestFile (hr : r ∈ (Plan.ofDescription d s).resources) (hc : c ∈ r.calls) :
    PlacedIn s (Settings.directory s.requestSuffix) [r.className]
      (requestFile d s (dtoClasses d s) r c) := by
  obtain ⟨hnamespace, hname⟩ := (traces_requestFile d s (dtoClasses d s) r c).own
  simp only [Header.ofRequest, Resource.requestRef, Resource.requestNamespace,
    Settings.requestNamespace] at hnamespace
  refine placedIn_below hnamespace (Plan.isClassName_className hr) ?_
  rw [hname]
  exact Plan.isClassName_requestClass hr hc

theorem placedIn_objectFiles {p : Bool → Bool} {suffix : String}
    (h : ∀ name, p (d.components.isResponse name) →
      dtoNamespaceOf d s name = s.subNamespace suffix) :
    ∀ f ∈ objectFiles d s p, PlacedIn s (Settings.directory suffix) [] f := by
  intro f hf
  rw [objectFiles_eq] at hf
  obtain ⟨x, hx, rfl⟩ := List.mem_map.mp hf
  obtain ⟨hmem, hp⟩ := List.mem_filter.mp hx
  have hclass := isClassOf_dtoFile hmem
  exact placedIn_subNamespace (hclass.namespaceName.trans (h x.1 hp))
    (isClassName_of_isClassOf hclass)

theorem placedIn_support (s : Settings) :
    List.Forall₂ (fun directory f => PlacedIn s directory [] f) ["", "Contracts", "Concerns"]
      (Support.otherFiles s) := by
  have hbelow : ∀ suffix, Text.trimOf '\\' suffix = suffix → suffix ≠ "" →
      s.namespaceName ++ ("\\" ++ suffix) = s.subNamespace suffix := by
    intro suffix htrim hne
    simp only [Settings.subNamespace, htrim]
    rw [if_neg (by rwa [String.isEmpty_iff]), String.append_assoc]
  obtain ⟨hdto, hdtoName⟩ := (traces_dtoBase s).own
  obtain ⟨hcontract, hcontractName⟩ := (traces_contract s).own
  obtain ⟨htrait, htraitName⟩ := (traces_trait s).own
  have hcontracts : Settings.directory "Contracts" = "Contracts" := by decide +kernel
  have hconcerns : Settings.directory "Concerns" = "Concerns" := by decide +kernel
  refine .cons ?_ (.cons ?_ (.cons ?_ .nil))
  · have hname : IsClassName "Dto" := by decide
    exact placedIn_root hdto (hdtoName ▸ hname)
  · have hname : IsClassName "Deserializable" := by decide
    rw [← hcontracts]
    refine placedIn_subNamespace ?_ (hcontractName ▸ hname)
    exact hcontract.trans (hbelow "Contracts" (by decide) (by decide))
  · have hname : IsClassName "HasFieldMap" := by decide
    rw [← hconcerns]
    refine placedIn_subNamespace ?_ (htraitName ▸ hname)
    exact htrait.trans (hbelow "Concerns" (by decide) (by decide))

/-- A description says nothing about where the classes of its client go but what they are called:
each goes to the directory that the settings have for its kind. -/
theorem Sdk.generate_confined (h : generate d s = .ok sdk) : Confined d s sdk := by
  obtain ⟨-, connector, hconnector, rfl⟩ := generate_eq_ok h
  constructor
  case connector =>
    obtain ⟨hnamespace, hname⟩ := (traces_connectorFile hconnector).own
    refine placedIn_root hnamespace ?_
    rw [hname]
    simp only [Header.ofConnector]
    exact isClassName_connectorName s
  case resourceBase =>
    obtain ⟨hnamespace, hname⟩ := (traces_resourceBase s).own
    have hresource : IsClassName "Resource" := by decide
    exact placedIn_root hnamespace (hname ▸ hresource)
  case support => exact placedIn_support s
  case dtos =>
    refine placedIn_objectFiles (p := (!·)) fun name hname => ?_
    rw [dtoNamespaceOf, if_neg (by simpa using hname), Settings.dtoNamespace]
  case responses =>
    refine placedIn_objectFiles (p := id) fun name hname => ?_
    rw [dtoNamespaceOf, if_pos (by simpa using hname), Settings.responseNamespace]
  case requests =>
    intro f hf
    obtain ⟨r, hr, hf⟩ := List.mem_flatMap.mp hf
    obtain ⟨c, hc, rfl⟩ := List.mem_map.mp hf
    exact ⟨r, hr, c, hc, rfl, placedIn_requestFile hr hc⟩
  case resources =>
    rw [List.forall_mem_map]
    intro r hr
    obtain ⟨hnamespace, hname⟩ := (traces_resourceFile s r).own
    simp only [Header.ofResource, Resource.classRef, Settings.resourceNamespace] at hnamespace
    refine placedIn_subNamespace hnamespace ?_
    rw [hname]
    exact Plan.isClassName_className hr

/-- An API whose names are paths that lead elsewhere. -/
def trespassing : Api.Description :=
  let object (name : String) := (name, Api.Schema.object name [("id", .scalar "id" .int)] [])
  { Api.Description.empty with
    components := ⟨[], [object "..\\..\\index", object "/etc/passwd"], ["/etc/passwd"]⟩
    endpoints := [{ Api.Endpoint.plain "/../../app" .get "/app" with
      collection := some "..\\../vendor" }] }

/-- Settings that put data classes into nested directories, and the classes of responses into the
root namespace. -/
def nested : Settings :=
  { Settings.new "Acme" "\\App\\Sdk\\" with
    dtoSuffix := "\\Data\\Objects\\", responseSuffix := "\\" }

theorem Sdk.generate_trespassing_confined : ∃ sdk, generate trespassing nested = .ok sdk ∧
    sdk.files.map (relativePath · nested.namespaceName) =
      ["Resource.php", "Dto.php", "Contracts/Deserializable.php", "Concerns/HasFieldMap.php",
        "Data/Objects/Index.php", "EtcPasswd.php", "Requests/Vendor/App.php",
        "Resource/Vendor.php", "Acme.php"] ∧
    Confined trespassing nested sdk := by
  have hrun : (generate trespassing nested).toOption.map
      (fun sdk => sdk.files.map (relativePath · nested.namespaceName)) =
      some ["Resource.php", "Dto.php", "Contracts/Deserializable.php", "Concerns/HasFieldMap.php",
        "Data/Objects/Index.php", "EtcPasswd.php", "Requests/Vendor/App.php",
        "Resource/Vendor.php", "Acme.php"] := by decide +kernel
  obtain ⟨sdk, hsdk, hpaths⟩ := toOption_map_eq_some.mp hrun
  exact ⟨sdk, hsdk, hpaths, generate_confined hsdk⟩

end Client
end SdkSmith
