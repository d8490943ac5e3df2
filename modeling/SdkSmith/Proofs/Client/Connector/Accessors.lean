import Mathlib.Data.List.Nodup
import SdkSmith.Proofs.Client.Request.Sending

/-!
The methods by which the connector gives its resources. Each resource has one, in the order of the
class names. Its name is the class name as a variable, with a suffix where connectors have a method
of that name, so two resources may come to the same one.
-/
namespace SdkSmith.Client
open Naming (variableName IsAlphanum)
open Php (Expr File Method)

variable {d : Api.Description} {s : Settings} {p : Plan} {f : File} {c : ClassRef}
  {cs : List ClassRef} {m : Method} {sdk : Sdk}

/-! Methods -/

/-- The method for a resource, which makes it by a name that stands for its class. -/
def Accesses (f : File) (c : ClassRef) (m : Method) : Prop :=
  ∃ name, m = .returning (accessorName c.name) [] (.named name) (.new name [.variable "this"]) ∧
    f.Introduces name c.qualifiedName

theorem addAccessor_eq (f : File) (c : ClassRef) : addAccessor f c =
    (importClass f c "Resource").2.addMethod (.returning (accessorName c.name) []
      (.named (importClass f c "Resource").1)
      (.new (importClass f c "Resource").1 [.variable "this"])) := by
  rw [addAccessor]

theorem Accesses.addAccessor (h : Accesses f c m) (other : ClassRef) :
    Accesses (addAccessor f other) c m := by
  obtain ⟨name, hm, hname⟩ := h
  have hkept := introduces_of_importClass hname other "Resource"
  refine ⟨name, hm, ?_⟩
  rwa [addAccessor_eq, Php.File.introduces_addMethod]

theorem accesses_addAccessor (h : '\\' ∉ c.name.toList) (f : File) :
    ∃ m, (addAccessor f c).declaration.methods = f.declaration.methods ++ [m] ∧
      Accesses (addAccessor f c) c m := by
  have hname := introduces_importClass h f "Resource"
  have hmethods := Php.File.methods_addMethod (importClass f c "Resource").2
    (.returning (accessorName c.name) [] (.named (importClass f c "Resource").1)
      (.new (importClass f c "Resource").1 [.variable "this"]))
  rw [← addAccessor_eq, declaration_importClass] at hmethods
  refine ⟨_, hmethods, (importClass f c "Resource").1, rfl, ?_⟩
  rwa [addAccessor_eq, Php.File.introduces_addMethod]

/-- Accessors that are added one by one stand at the end, in their order. -/
theorem accesses_foldl_addAccessor (h : ∀ c ∈ cs, '\\' ∉ c.name.toList) (f : File) :
    ∃ ms, (cs.foldl addAccessor f).declaration.methods = f.declaration.methods ++ ms ∧
      List.Forall₂ (Accesses (cs.foldl addAccessor f)) cs ms := by
  induction cs using List.reverseRecOn with
  | nil => exact ⟨[], (List.append_nil _).symm, .nil⟩
  | append_singleton cs c ih =>
    rw [List.forall_mem_append, List.forall_mem_singleton] at h
    obtain ⟨ms, hms, hall⟩ := ih h.1
    obtain ⟨m, hm, haccesses⟩ := accesses_addAccessor h.2 (cs.foldl addAccessor f)
    rw [List.foldl_append, List.foldl_cons, List.foldl_nil]
    refine ⟨ms ++ [m], by rw [hm, hms, List.append_assoc], ?_⟩
    have hkept := hall.imp fun _ _ hbefore => hbefore.addAccessor c
    exact List.rel_append hkept (.cons haccesses .nil)

/-- The connector's constructor, if it has parameters. -/
def connectorConstructors (d : Api.Description) : List Method :=
  if (connectorParams d).isEmpty then []
  else [{ Method.plain "__construct" (connectorParams d) with
    body := (credentials d).map Credential.stmt }]

/-- The credentials of a connector need imports only. -/
theorem declaration_importAuthenticators (cs : List Credential) (f : File) :
    (cs.foldl (fun f c => f.addImport
      ⟨"Saloon\\Http\\Auth\\" ++ c.carrier.authenticator, none⟩) f).declaration =
      f.declaration := by
  induction cs generalizing f with
  | nil => rfl
  | cons c cs ih => rw [List.foldl_cons, ih, Php.File.declaration_addImport]

theorem methods_addConnectorConstructor (d : Api.Description) (f : File) :
    (addConnectorConstructor d f).declaration.methods =
      f.declaration.methods ++ connectorConstructors d := by
  unfold addConnectorConstructor connectorConstructors
  simp only
  split
  · rw [declaration_importAuthenticators, List.append_nil]
  · rw [Php.File.methods_addMethod, declaration_importAuthenticators]

theorem methods_connectorStart (s : Settings) : (connectorStart s).declaration.methods = [] := by
  simp only [connectorStart, declaration_importBase]
  rfl

/-- The methods that a connector has before those for its resources. -/
def ownMethods (d : Api.Description) (baseUrl : Expr) : List Method :=
  connectorConstructors d ++ [.returning "resolveBaseUrl" [] .string baseUrl, headersMethod]

/-- A connector has its own methods and one for each resource. -/
theorem accesses_connectorFile (hclear : ∀ r ∈ p.resources, '\\' ∉ r.className.toList)
    (h : connectorFile d s p = .ok f) : ∃ baseUrl ms, baseUrlExpr d = .ok baseUrl ∧
      f.declaration.methods = ownMethods d baseUrl ++ ms ∧
      List.Forall₂ (Accesses f) (sortedResources s p) ms := by
  obtain ⟨baseUrl, hbaseUrl, h⟩ := bind_eq_ok.mp h
  cases h
  have hnames : ∀ c ∈ sortedResources s p, '\\' ∉ c.name.toList := by
    intro c hc
    obtain ⟨r, hr, rfl⟩ := List.mem_map.mp (List.mem_mergeSort.mp hc)
    exact hclear r hr
  obtain ⟨ms, hms, hall⟩ := accesses_foldl_addAccessor hnames
    (((addConnectorConstructor d (connectorStart s)).addMethod
      (.returning "resolveBaseUrl" [] .string baseUrl)).addMethod headersMethod)
  refine ⟨baseUrl, ms, hbaseUrl, ?_, hall⟩
  rw [hms, Php.File.methods_addMethod, Php.File.methods_addMethod, methods_addConnectorConstructor,
    methods_connectorStart, List.nil_append, ownMethods]
  simp only [List.append_assoc, List.cons_append, List.nil_append]

theorem name_returning (name : String) (params : List Php.Param) (type : Php.PhpType) (e : Expr) :
    (Method.returning name params type e).name = name := rfl

theorem names_accessors {ms : List Method} (h : List.Forall₂ (Accesses f) cs ms) :
    ms.map (·.name) = cs.map fun c => accessorName c.name := by
  induction h with
  | nil => rfl
  | cons haccesses _ ih =>
    obtain ⟨name, rfl, -⟩ := haccesses
    rw [List.map_cons, List.map_cons, ih, name_returning]

theorem params_accessors {ms : List Method} (h : List.Forall₂ (Accesses f) cs ms) :
    ∀ m ∈ ms, m.params = [] := by
  induction h with
  | nil => exact List.forall_mem_nil _
  | cons haccesses _ ih =>
    obtain ⟨name, rfl, -⟩ := haccesses
    exact List.forall_mem_cons.mpr ⟨rfl, ih⟩

/-! Order -/

theorem sortedResources_perm (s : Settings) (p : Plan) :
    (sortedResources s p).Perm (p.resources.map fun r => r.classRef s) :=
  List.mergeSort_perm _ _

/-- Resources of different classes are in the order of their names. -/
theorem sortedResources_sorted (s : Settings) (h : (p.resources.map (·.className)).Nodup) :
    ((sortedResources s p).map (·.name)).Pairwise (· < ·) := by
  have hordered : (sortedResources s p).Pairwise fun a b => a.name ≤ b.name := by
    refine (List.pairwise_mergeSort ?_ ?_ _).imp ?_
    · intro a b c hab hbc
      simp only [Bool.not_eq_true', decide_eq_false_iff_not, String.not_lt] at hab hbc ⊢
      exact String.le_trans hab hbc
    · intro a b
      simp only [Bool.or_eq_true, Bool.not_eq_true', decide_eq_false_iff_not, String.not_lt]
      exact String.le_total a.name b.name
    · intro a b hab
      simpa only [Bool.not_eq_true', decide_eq_false_iff_not, String.not_lt] using hab
  -- the order is strict, as sorting keeps the names distinct
  have hdistinct : ((sortedResources s p).map (·.name)).Nodup := by
    have hperm := (sortedResources_perm s p).map (·.name)
    rw [List.map_map] at hperm
    exact hperm.nodup_iff.mpr h
  rw [List.pairwise_map]
  refine hordered.imp₂ (fun a b hab hne => ?_) (List.pairwise_map.mp hdistinct)
  refine String.not_le.mp fun hba => hne (String.le_antisymm hab hba)

/-! Names -/

theorem resourceClassOf_eq (s : Settings) (label : String) : ∃ tail, IsAlphanum tail ∧
    resourceClassOf s label = Naming.className label "Resource" ++ tail := by
  simp only [resourceClassOf]
  split
  · exact ⟨"Resource", Naming.isAlphanum_of_all (by decide), rfl⟩
  · exact ⟨"", Naming.isAlphanum_of_all (by decide), String.append_empty.symm⟩

theorem isAlphanum_resourceClassOf (s : Settings) (label : String) :
    IsAlphanum (resourceClassOf s label) := by
  obtain ⟨tail, htail, heq⟩ := resourceClassOf_eq s label
  rw [heq]
  exact (Naming.isAlphanum_className (Naming.isAlphanum_of_all (by decide)) label).append htail

theorem Plan.isAlphanum_className {r : Resource} (h : r ∈ (ofDescription d s).resources) :
    IsAlphanum r.className := by
  obtain ⟨e, -, he⟩ := exists_classOf h
  rw [← he]
  exact isAlphanum_resourceClassOf s (labelOf s e)

theorem Plan.clear_className {r : Resource} (h : r ∈ (ofDescription d s).resources) :
    '\\' ∉ r.className.toList := by
  intro hbackslash
  cases isAlphanum_className h _ hbackslash

theorem isAlphanum_accessorName (n : String) : IsAlphanum (accessorName n) := by
  have hname := Naming.isAlphanum_variableName n
  simp only [accessorName]
  split
  · exact hname.append (Naming.isAlphanum_of_all (by decide))
  · exact hname

theorem suffixed_not_mem : ∀ m ∈ connectorMethods, m ++ "Resource" ∉ connectorMethods := by
  decide +kernel

/-- The method for a resource hides none that every connector has. -/
theorem accessorName_not_mem (n : String) : accessorName n ∉ connectorMethods := by
  simp only [accessorName]
  split
  · rename_i htaken
    exact suffixed_not_mem _ (List.mem_of_elem_eq_true htaken)
  · rename_i hfree
    rwa [List.contains_iff_mem] at hfree

/-- Names that get a suffix where connectors have a method of theirs come to the same only if they
are the same, or if one is the other with the suffix. -/
theorem suffixed_eq_iff {x y : String} :
    (if x ∈ connectorMethods then x ++ "Resource" else x) =
      (if y ∈ connectorMethods then y ++ "Resource" else y) ↔
    x = y ∨ (x ∈ connectorMethods ∧ y = x ++ "Resource") ∨
      (y ∈ connectorMethods ∧ x = y ++ "Resource") := by
  by_cases hx : x ∈ connectorMethods
  · by_cases hy : y ∈ connectorMethods
    · rw [if_pos hx, if_pos hy, String.append_left_inj]
      constructor
      · exact Or.inl
      · rintro (heq | ⟨-, rfl⟩ | ⟨-, rfl⟩)
        · exact heq
        · exact absurd hy (suffixed_not_mem x hx)
        · exact absurd hx (suffixed_not_mem y hy)
    · rw [if_pos hx, if_neg hy]
      constructor
      · intro heq
        exact Or.inr (Or.inl ⟨hx, heq.symm⟩)
      · rintro (rfl | ⟨-, heq⟩ | ⟨hmem, -⟩)
        · exact absurd hx hy
        · exact heq.symm
        · exact absurd hmem hy
  · by_cases hy : y ∈ connectorMethods
    · rw [if_neg hx, if_pos hy]
      constructor
      · intro heq
        exact Or.inr (Or.inr ⟨hy, heq⟩)
      · rintro (rfl | ⟨hmem, -⟩ | ⟨-, heq⟩)
        · exact absurd hy hx
        · exact absurd hmem hx
        · exact heq
    · rw [if_neg hx, if_neg hy]
      constructor
      · exact Or.inl
      · rintro (heq | ⟨hmem, -⟩ | ⟨hmem, -⟩)
        · exact heq
        · exact absurd hmem hx
        · exact absurd hmem hy

/-- Whether the method for a class takes the suffix and so comes to the name of another class. -/
def YieldsTo (a b : String) : Prop :=
  variableName a ∈ connectorMethods ∧ variableName b = variableName a ++ "Resource"

theorem accessorName_eq_iff {a b : String} : accessorName a = accessorName b ↔
    variableName a = variableName b ∨ YieldsTo a b ∨ YieldsTo b a := by
  simp only [accessorName, List.contains_iff_mem]
  exact suffixed_eq_iff

/-- The names of the methods that a connector has before those for its resources. -/
theorem ownMethods_names (d : Api.Description) (baseUrl : Expr) :
    (ownMethods d baseUrl).map (·.name) =
      (if (connectorParams d).isEmpty then [] else ["__construct"]) ++
        ["resolveBaseUrl", "defaultHeaders"] := by
  rw [ownMethods, List.map_append, connectorConstructors]
  split <;> rfl

theorem accessorName_ne_constructor (n : String) : accessorName n ≠ "__construct" := by
  intro heq
  have halnum := isAlphanum_accessorName n
  rw [heq] at halnum
  exact absurd (halnum '_' (by decide)) (by decide)

theorem accessorName_not_own (n : String) (baseUrl : Expr) :
    accessorName n ∉ (ownMethods d baseUrl).map (·.name) := by
  have hconstructor := accessorName_ne_constructor n
  have hfree := accessorName_not_mem n
  rw [ownMethods_names]
  split <;> simp_all [connectorMethods]

/-- The methods of a connector have different names exactly if those for its resources have. -/
theorem nodup_methods {resources : List Resource} {accessors : List Method} {baseUrl : Expr}
    (hnames : (accessors.map (·.name)).Perm (resources.map fun r => accessorName r.className)) :
    ((ownMethods d baseUrl ++ accessors).map (·.name)).Nodup ↔
      (resources.map fun r => accessorName r.className).Nodup := by
  have hown : ((ownMethods d baseUrl).map (·.name)).Nodup := by
    rw [ownMethods_names]
    split <;> decide
  rw [List.map_append, List.nodup_append', hnames.nodup_iff]
  refine ⟨fun h => h.2.1, fun h => ⟨hown, h, ?_⟩⟩
  intro name howned hgiven
  obtain ⟨r, -, rfl⟩ := List.mem_map.mp (hnames.mem_iff.mp hgiven)
  exact accessorName_not_own r.className baseUrl howned

theorem nodup_accessors {resources : List Resource}
    (hclasses : (resources.map (·.className)).Nodup) :
    (resources.map fun r => accessorName r.className).Nodup ↔
      ∀ r ∈ resources, ∀ q ∈ resources, r.className ≠ q.className →
        variableName r.className ≠ variableName q.className ∧
          ¬ YieldsTo r.className q.className := by
  have hmap : (resources.map fun r => accessorName r.className) =
      (resources.map (·.className)).map accessorName := by
    simp only [List.map_map, Function.comp_def]
  rw [hmap, List.nodup_map_iff_inj_on hclasses]
  constructor
  · intro hinj r hr q hq hne
    have hdiffer : accessorName r.className ≠ accessorName q.className := fun heq =>
      hne (hinj _ (List.mem_map_of_mem hr) _ (List.mem_map_of_mem hq) heq)
    exact ⟨fun heq => hdiffer (accessorName_eq_iff.mpr (Or.inl heq)),
      fun hyields => hdiffer (accessorName_eq_iff.mpr (Or.inr (Or.inl hyields)))⟩
  · intro hall x hx y hy heq
    obtain ⟨r, hr, rfl⟩ := List.mem_map.mp hx
    obtain ⟨q, hq, rfl⟩ := List.mem_map.mp hy
    by_contra hne
    rcases accessorName_eq_iff.mp heq with hsame | hyields | hyields
    · exact (hall r hr q hq hne).1 hsame
    · exact (hall r hr q hq hne).2 hyields
    · exact (hall q hq r hr (Ne.symm hne)).2 hyields

/-! Clients -/

namespace Sdk

/-- The methods that the connector of a client has. -/
theorem generate_methods (h : generate d s = .ok sdk) : ∃ baseUrl accessors,
    sdk.connector.declaration.methods = ownMethods d baseUrl ++ accessors ∧
    List.Forall₂ (Accesses sdk.connector) (sortedResources s (Plan.ofDescription d s)) accessors ∧
    ((sdk.connector.declaration.methods.map (·.name)).Nodup ↔
      ((Plan.ofDescription d s).resources.map fun r => accessorName r.className).Nodup) := by
  obtain ⟨-, connector, hconnector, rfl⟩ := generate_eq_ok h
  obtain ⟨baseUrl, accessors, -, hmethods, hall⟩ :=
    accesses_connectorFile (fun _ => Plan.clear_className) hconnector
  have hnames : (accessors.map (·.name)).Perm
      ((Plan.ofDescription d s).resources.map fun r => accessorName r.className) := by
    have hperm := (sortedResources_perm s (Plan.ofDescription d s)).map fun c => accessorName c.name
    simp only [List.map_map, Function.comp_def, Resource.classRef] at hperm
    rwa [names_accessors hall]
  refine ⟨baseUrl, accessors, hmethods, hall, ?_⟩
  rw [← nodup_methods hnames, ← hmethods]

/-- The connector of a client has a method for each resource, in the order of the class names,
which makes a new object of the resource's class, by a name that stands for it. Its methods have
different names exactly if the class names of any two resources are different as variables, and
neither is, as a variable, one that connectors have a method of, with the other being that with the
suffix. -/
theorem generate_accesses (h : generate d s = .ok sdk) : ∃ own classes accessors,
    sdk.connector.declaration.methods = own ++ accessors ∧
    own.map (·.name) = (if (connectorParams d).isEmpty then [] else ["__construct"]) ++
      ["resolveBaseUrl", "defaultHeaders"] ∧
    classes.Perm ((Plan.ofDescription d s).resources.map fun r => r.classRef s) ∧
    (classes.map (·.name)).Pairwise (· < ·) ∧
    List.Forall₂ (Accesses sdk.connector) classes accessors ∧
    ((sdk.connector.declaration.methods.map (·.name)).Nodup ↔
      ∀ r ∈ (Plan.ofDescription d s).resources, ∀ q ∈ (Plan.ofDescription d s).resources,
        r.className ≠ q.className → variableName r.className ≠ variableName q.className ∧
          ¬ YieldsTo r.className q.className) := by
  have hclasses : ((Plan.ofDescription d s).resources.map (·.className)).Nodup := by
    rw [Plan.ofDescription_resources, Plan.classes_grouped]
    exact nodup_keysSeen _ _
  obtain ⟨baseUrl, accessors, hmethods, hall, hdistinct⟩ := generate_methods h
  exact ⟨ownMethods d baseUrl, sortedResources s (Plan.ofDescription d s), accessors, hmethods,
    ownMethods_names d baseUrl, sortedResources_perm s _, sortedResources_sorted s hclasses, hall,
    hdistinct.trans (nodup_accessors hclasses)⟩

/-- Endpoints in collections of these names. -/
def labelled (labels : List String) : Api.Description :=
  { Api.Description.empty with endpoints := labels.map fun label =>
    { Api.Endpoint.plain label .get "/" with collection := some label } }

/-- Endpoints in four collections, two of which have the same class. -/
def teams : Api.Description := labelled ["users", "Teams", "Users", "send"]

theorem generate_teams_accesses : ∃ sdk, generate teams (.new "Acme" "App") = .ok sdk ∧
    sdk.resources.map (·.declaration.name) = ["Users", "Teams", "Send"] ∧
    (∃ classes accessors, (classes.map (·.name)).Perm ["Users", "Teams", "Send"] ∧
      (classes.map (·.name)).Pairwise (· < ·) ∧
      List.Forall₂ (Accesses sdk.connector) classes accessors) ∧
    (sdk.connector.declaration.methods.map (·.name)).Nodup := by
  have hrun : (generate teams (.new "Acme" "App")).toOption.map (fun sdk =>
      sdk.resources.map (·.declaration.name)) = some ["Users", "Teams", "Send"] := by
    decide +kernel
  have hnames : (Plan.ofDescription teams (.new "Acme" "App")).resources.map (·.className) =
      ["Users", "Teams", "Send"] := by decide +kernel
  have hdiffer : ∀ r ∈ (Plan.ofDescription teams (.new "Acme" "App")).resources,
      ∀ q ∈ (Plan.ofDescription teams (.new "Acme" "App")).resources,
        r.className ≠ q.className → variableName r.className ≠ variableName q.className ∧
          ¬ YieldsTo r.className q.className := by
    unfold YieldsTo
    decide +kernel
  obtain ⟨sdk, hsdk, hfiles⟩ := toOption_map_eq_some.mp hrun
  obtain ⟨own, classes, accessors, -, -, hperm, hsorted, hall, hdistinct⟩ := generate_accesses hsdk
  have hclasses := hperm.map (·.name)
  rw [List.map_map] at hclasses
  exact ⟨sdk, hsdk, hfiles, ⟨classes, accessors, hclasses.trans (.of_eq hnames), hsorted, hall⟩,
    hdistinct.mpr hdiffer⟩

/-- Endpoints about a configuration, in two collections. -/
def configuration : Api.Description := labelled ["config", "config resource"]

/-- The method for one resource takes the suffix where connectors have a method of its name, and so
comes to the name of the method for another one. -/
theorem generate_configuration_clashes : ∃ sdk,
    generate configuration (.new "Acme" "App") = .ok sdk ∧
    sdk.resources.map (·.declaration.name) = ["Config", "ConfigResource"] ∧
    (Plan.ofDescription configuration (.new "Acme" "App")).resources.map
      (fun r => accessorName r.className) = ["configResource", "configResource"] ∧
    ¬ (sdk.connector.declaration.methods.map (·.name)).Nodup := by
  have hrun : (generate configuration (.new "Acme" "App")).toOption.map (fun sdk =>
      sdk.resources.map (·.declaration.name)) = some ["Config", "ConfigResource"] := by
    decide +kernel
  have hnames : (Plan.ofDescription configuration (.new "Acme" "App")).resources.map
      (fun r => accessorName r.className) = ["configResource", "configResource"] := by
    decide +kernel
  obtain ⟨sdk, hsdk, hclasses⟩ := toOption_map_eq_some.mp hrun
  obtain ⟨baseUrl, accessors, -, -, hdistinct⟩ := generate_methods hsdk
  refine ⟨sdk, hsdk, hclasses, hnames, ?_⟩
  rw [hdistinct, hnames]
  decide

end Sdk
end SdkSmith.Client
