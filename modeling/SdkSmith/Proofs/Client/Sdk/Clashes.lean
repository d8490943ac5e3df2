import SdkSmith.Proofs.Client.Connector.Accessors
import SdkSmith.Proofs.Client.Connector.Keyring
import SdkSmith.Proofs.Client.Dto.DataMembers

/-!
The classes of a client whose members clash. A class declares each of its members once, and no
parameter has the name of the object itself, exactly if no name in the description has one of a few
variables, those of the members that classes have anyway.
-/
namespace SdkSmith.Client
open Naming (variableName)
open Php (File Method)

variable {d : Api.Description} {s : Settings} {p : Plan} {f : File} {x : String} {sdk : Sdk}

/-! The connector -/

/-- The names of the connector's members: credentials and variables of the base URL. -/
def connectorNames (d : Api.Description) : List String :=
  (credentials d).map (·.name) ++ (serverMembers d).map serverVariable

theorem nodup_connectorNames (d : Api.Description) : (connectorNames d).Nodup := by
  rw [connectorNames, List.nodup_append']
  refine ⟨nodup_credentials d, nodup_firstOfName _ _ _, fun x hcredential hserver => ?_⟩
  exact ((mem_names_firstOfName _ _ _).mp hserver).2 (mem_taken_keyring.mpr hcredential)

theorem mem_connectorNames : x ∈ connectorNames d ↔
    x ∈ (d.security.filterMap (credential? d)).map Credential.name ∨
      x ∈ d.baseUrl.parameters.map serverVariable := by
  rw [connectorNames, List.mem_append, serverMembers, mem_names_firstOfName, mem_taken_keyring,
    mem_names_credentials, asked]
  constructor
  · rintro (hx | ⟨hx, -⟩)
    · exact Or.inl hx
    · exact Or.inr hx
  · rintro (hx | hx)
    · exact Or.inl hx
    · by_cases hcredential : x ∈ (d.security.filterMap (credential? d)).map Credential.name
      · exact Or.inl hcredential
      · exact Or.inr ⟨hx, hcredential⟩

theorem names_connectorParams (d : Api.Description) :
    ((connectorParams d).map (·.name)).Perm (connectorNames d) := by
  have hperm := (requiredFirst_perm ((credentials d).map Credential.toParam ++
    (serverMembers d).map serverParam)).map (·.name)
  simp only [List.map_append, List.map_map, Function.comp_def, Credential.toParam, serverParam,
    Php.ParamOf.typed] at hperm
  exact hperm

theorem promoted_connectorParams (d : Api.Description) :
    ∀ p ∈ connectorParams d, p.promoted = some .heirs := by
  intro p hp
  rcases List.mem_append.mp ((requiredFirst_perm _).mem_iff.mp hp) with hp | hp
  · obtain ⟨c, -, rfl⟩ := List.mem_map.mp hp
    rfl
  · obtain ⟨q, -, rfl⟩ := List.mem_map.mp hp
    rfl

/-- A connector has no properties but the members of its constructor. -/
theorem properties_connectorFile (h : connectorFile d s p = .ok f) :
    f.declaration.properties = [] := by
  have hstart : (addConnectorConstructor d (connectorStart s)).declaration.properties = [] := by
    have hempty : (connectorStart s).declaration.properties = [] := by
      simp only [connectorStart, declaration_importBase]
      rfl
    unfold addConnectorConstructor
    simp only
    split
    · rw [declaration_importAuthenticators, hempty]
    · rw [properties_addMethod, declaration_importAuthenticators, hempty]
  obtain ⟨baseUrl, -, h⟩ := bind_eq_ok.mp h
  cases h
  refine List.foldlRecOn (motive := fun f : File => f.declaration.properties = [])
    (sortedResources s p) addAccessor ?_ ?_
  · rw [properties_addMethod, properties_addMethod, hstart]
  · intro f hf c _
    rw [addAccessor_eq, properties_addMethod, declaration_importClass, hf]

theorem constructor?_connectorFile (hclear : ∀ r ∈ p.resources, '\\' ∉ r.className.toList)
    (h : connectorFile d s p = .ok f) :
    f.declaration.constructor? = (connectorConstructors d).head? := by
  obtain ⟨baseUrl, accessors, -, hmethods, hall⟩ := accesses_connectorFile hclear h
  -- a name of letters and digits is no constructor's
  have hother : accessors.find? (fun m => m.name == "__construct") = none := by
    rw [List.find?_eq_none]
    intro m hm
    have hname := List.mem_map_of_mem (f := (·.name)) hm
    rw [names_accessors hall] at hname
    obtain ⟨c, -, hname⟩ := List.mem_map.mp hname
    rw [← hname, beq_iff_eq]
    exact accessorName_ne_constructor c.name
  rw [Php.Class.constructor?, Php.Class.method?, hmethods, List.find?_append, hother, ownMethods,
    connectorConstructors]
  split <;> rfl

theorem constructorParams_connectorFile (hclear : ∀ r ∈ p.resources, '\\' ∉ r.className.toList)
    (h : connectorFile d s p = .ok f) : constructorParams f = connectorParams d := by
  rw [constructorParams, constructor?_connectorFile hclear h, connectorConstructors]
  by_cases hempty : (connectorParams d).isEmpty
  · rw [if_pos hempty, List.isEmpty_iff.mp hempty]
    rfl
  · rw [if_neg hempty]
    rfl

/-- The members of the connector are those of its constructor. -/
theorem declaredNames_connectorFile (hclear : ∀ r ∈ p.resources, '\\' ∉ r.className.toList)
    (h : connectorFile d s p = .ok f) :
    declaredNames f = (connectorParams d).map (·.name) := by
  have hpromoted : (connectorParams d).filter (fun p => p.promoted.isSome) = connectorParams d := by
    refine List.filter_eq_self.mpr fun p hp => ?_
    rw [promoted_connectorParams d p hp]
    rfl
  rw [declaredNames, properties_connectorFile h, promotedNames,
    constructorParams_connectorFile hclear h, hpromoted, List.map_nil, List.nil_append]

/-- No member of the connector clashes with another, only with the object itself. -/
theorem declarable_connectorFile (hclear : ∀ r ∈ p.resources, '\\' ∉ r.className.toList)
    (h : connectorFile d s p = .ok f) : Declarable f ↔ "this" ∉ connectorNames d := by
  have hperm := names_connectorParams d
  have hconstructors : (∀ m ∈ connectorConstructors d, "this" ∉ m.params.map (·.name)) ↔
      "this" ∉ connectorNames d := by
    rw [← hperm.mem_iff, connectorConstructors]
    split
    · rename_i hempty
      rw [List.isEmpty_iff.mp hempty]
      simp
    · rw [List.forall_mem_singleton, Method.plain]
  obtain ⟨baseUrl, accessors, -, hmethods, hall⟩ := accesses_connectorFile hclear h
  constructor
  · intro hdeclarable
    refine hconstructors.mp fun m hm => hdeclarable.params m ?_
    rw [hmethods, ownMethods, List.append_assoc]
    exact List.mem_append_left _ hm
  · intro hthis
    constructor
    case distinct =>
      rw [declaredNames_connectorFile hclear h, hperm.nodup_iff]
      exact nodup_connectorNames d
    case params =>
      rw [hmethods, ownMethods]
      refine List.forall_mem_append.mpr
        ⟨List.forall_mem_append.mpr ⟨hconstructors.mpr hthis, ?_⟩, ?_⟩
      · exact List.forall_mem_cons.mpr ⟨List.not_mem_nil,
          List.forall_mem_singleton.mpr List.not_mem_nil⟩
      · intro m hm
        rw [params_accessors hall m hm]
        exact List.not_mem_nil

/-! Clients -/

/-- Whether no name in a description has the variable of the object itself, or of a member that the
class of its member has anyway. -/
structure HasFreeNames (d : Api.Description) (s : Settings) : Prop where
  members : ∀ e ∈ d.endpoints, ∀ n ∈ memberSources s e,
    variableName n ≠ "method" ∧ variableName n ≠ "this"
  properties : ∀ x ∈ schemaClasses d s, HasFreeProperties d (dtoClasses d s) x.2.2
  credentials : ∀ c ∈ d.security.filterMap (credential? d), c.name ≠ "this"
  servers : ∀ p ∈ d.baseUrl.parameters, serverVariable p ≠ "this"

instance (d : Api.Description) (s : Settings) : Decidable (HasFreeNames d s) :=
  decidable_of_iff
    ((∀ e ∈ d.endpoints, ∀ n ∈ memberSources s e,
        variableName n ≠ "method" ∧ variableName n ≠ "this") ∧
      (∀ x ∈ schemaClasses d s, HasFreeProperties d (dtoClasses d s) x.2.2) ∧
      (∀ c ∈ d.security.filterMap (credential? d), c.name ≠ "this") ∧
      ∀ p ∈ d.baseUrl.parameters, serverVariable p ≠ "this")
    ⟨fun h => ⟨h.1, h.2.1, h.2.2.1, h.2.2.2⟩,
      fun h => ⟨h.members, h.properties, h.credentials, h.servers⟩⟩

theorem this_not_mem_connectorNames : "this" ∉ connectorNames d ↔
    (∀ c ∈ d.security.filterMap (credential? d), c.name ≠ "this") ∧
      ∀ p ∈ d.baseUrl.parameters, serverVariable p ≠ "this" := by
  rw [mem_connectorNames, not_or, List.mem_map, List.mem_map]
  push Not
  rfl

/-- A request class declares its members once exactly if no name that they come from has the
variable of the property that it has anyway, or of the object itself. -/
theorem declarable_call (classes : DtoClasses) {r : Resource} {c : Call}
    (hr : r ∈ (Plan.ofDescription d s).resources) (hc : c ∈ r.calls) :
    Declarable (requestFile d s classes r c) ↔ ∀ n ∈ memberSources s c.endpoint,
      variableName n ≠ "method" ∧ variableName n ≠ "this" := by
  have hmembers := Plan.members_of_mem_calls hr hc
  have hmem : ∀ x, Naming.endsInDigit x = false → (x ∉ c.members.map (·.name) ↔
      ∀ n ∈ memberSources s c.endpoint, variableName n ≠ x) := by
    intro x hx
    rw [mem_names_members hmembers (Naming.isOriginal_of_endsInDigit hx)]
    push Not
    rfl
  rw [declarable_requestFile d classes r (Plan.nodup_members hr hc), hmem _ (by decide),
    hmem _ (by decide)]
  exact forall₂_and.symm

namespace Sdk

theorem declarable_dtos (h : generate d s = .ok sdk) :
    (∀ f ∈ sdk.dtos ++ sdk.responses, Declarable f) ↔
      ∀ x ∈ schemaClasses d s, HasFreeProperties d (dtoClasses d s) x.2.2 := by
  have hholds := holds_generate h
  have hfiles : (∀ f ∈ sdk.dtos ++ sdk.responses, Declarable f) ↔
      ∀ x ∈ schemaFiles d s, Declarable x.2 := by
    rw [hholds.dtos, hholds.responses]
    constructor
    · intro hall x hx
      apply hall
      cases hresponse : d.components.isResponse x.1 with
      | false =>
        have hkept : x ∈ (schemaFiles d s).filter fun x => !d.components.isResponse x.1 :=
          List.mem_filter.mpr ⟨hx, by rw [hresponse, Bool.not_false]⟩
        exact List.mem_append_left _ (List.mem_map_of_mem hkept)
      | true =>
        have hkept : x ∈ (schemaFiles d s).filter fun x => d.components.isResponse x.1 :=
          List.mem_filter.mpr ⟨hx, hresponse⟩
        exact List.mem_append_right _ (List.mem_map_of_mem hkept)
    · intro hall f hf
      rcases List.mem_append.mp hf with hf | hf
      · obtain ⟨x, hx, rfl⟩ := List.mem_map.mp hf
        exact hall x (List.mem_filter.mp hx).1
      · obtain ⟨x, hx, rfl⟩ := List.mem_map.mp hf
        exact hall x (List.mem_filter.mp hx).1
  rw [hfiles, schemaFiles, List.forall_mem_map]
  exact forall₂_congr fun x _ => declarable_dtoFile d s (dtoClasses d s) x.1 x.2.1 x.2.2

theorem declarable_connector (h : generate d s = .ok sdk) :
    Declarable sdk.connector ↔ "this" ∉ connectorNames d := by
  obtain ⟨-, connector, hconnector, rfl⟩ := generate_eq_ok h
  exact declarable_connectorFile (fun _ => Plan.clear_className) hconnector

/-- No other class clashes unless a request class does. -/
theorem declarable_resources (h : generate d s = .ok sdk)
    (hmembers : ∀ e ∈ d.endpoints, ∀ n ∈ memberSources s e,
      variableName n ≠ "method" ∧ variableName n ≠ "this") :
    ∀ f ∈ sdk.resourceBase :: sdk.support ++ sdk.resources, Declarable f := by
  obtain ⟨-, connector, -, rfl⟩ := generate_eq_ok h
  refine List.forall_mem_append.mpr ⟨List.forall_mem_cons.mpr
    ⟨declarable_resourceBase s, declarable_support s⟩, fun f hf => ?_⟩
  obtain ⟨r, hr, rfl⟩ := List.mem_map.mp hf
  refine declarable_resourceFile fun c hc => ?_
  have hcall := (declarable_call (dtoClasses d s) hr hc).mpr
    (hmembers c.endpoint (Plan.endpoint_of_mem_calls hr hc))
  exact ((declarable_requestFile d _ r (Plan.nodup_members hr hc)).mp hcall).2

/-- The classes of a client declare each of their members once, and no parameter of theirs has the
name of the object itself, exactly if no name in the description has the variable of a member that
its class has anyway. -/
theorem generate_declarable (h : generate d s = .ok sdk) :
    (∀ f ∈ sdk.files, Declarable f) ↔ HasFreeNames d s := by
  have hrequests : (∀ f ∈ sdk.requests, Declarable f) ↔ ∀ e ∈ d.endpoints,
      ∀ n ∈ memberSources s e, variableName n ≠ "method" ∧ variableName n ≠ "this" :=
    forall_requests h (P := Declarable)
      (Q := fun e => ∀ n ∈ memberSources s e, variableName n ≠ "method" ∧ variableName n ≠ "this")
      fun r hr c hc => declarable_call (dtoClasses d s) hr hc
  have hdtos := declarable_dtos h
  have hconnector := (declarable_connector h).trans this_not_mem_connectorNames
  constructor
  · intro hall
    simp only [files, List.forall_mem_append, List.forall_mem_singleton] at hall
    obtain ⟨⟨⟨⟨⟨-, hdto⟩, hresponse⟩, hrequest⟩, -⟩, hown⟩ := hall
    constructor
    case members => exact hrequests.mp hrequest
    case properties => exact hdtos.mp (List.forall_mem_append.mpr ⟨hdto, hresponse⟩)
    case credentials => exact (hconnector.mp hown).1
    case servers => exact (hconnector.mp hown).2
  · intro hfree
    have hothers := List.forall_mem_append.mp (declarable_resources h hfree.members)
    have hdata := List.forall_mem_append.mp (hdtos.mpr hfree.properties)
    simp only [files, List.forall_mem_append, List.forall_mem_singleton]
    exact ⟨⟨⟨⟨⟨hothers.1, hdata.1⟩, hdata.2⟩, hrequests.mpr hfree.members⟩, hothers.2⟩,
      hconnector.mpr ⟨hfree.credentials, hfree.servers⟩⟩

/-- Films and their actors, which are listed by a method. -/
def actors (parameter : String) : Api.Description :=
  { Api.Description.empty with
    endpoints := [{ Api.Endpoint.plain "List actors" .get "/actors" with
      queryParameters := [.plain parameter .string] }]
    components := ⟨[], [("film", .object "film" [("title", .scalar "title" .string),
      ("actors", .array "actors" (.scalar "actor" (.named "actor")) false)] []),
      ("actor", .object "actor" [("name", .scalar "name" .string)] [])], []⟩ }

theorem generate_actors_declarable : ∃ sdk,
    generate (actors "methods") (.new "Acme" "App") = .ok sdk ∧
    sdk.dtos.map declaredNames =
      [["fieldMap", "listCasts", "title", "actors"], ["fieldMap", "name"]] ∧
    sdk.requests.map declaredNames = [["method", "methods"]] ∧ ∀ f ∈ sdk.files, Declarable f := by
  have hrun : (generate (actors "methods") (.new "Acme" "App")).toOption.map (fun sdk =>
      (sdk.dtos.map declaredNames, sdk.requests.map declaredNames)) =
      some ([["fieldMap", "listCasts", "title", "actors"], ["fieldMap", "name"]],
        [["method", "methods"]]) := by
    decide +kernel
  have hfree : HasFreeNames (actors "methods") (.new "Acme" "App") := by decide +kernel
  obtain ⟨sdk, hsdk, hnames⟩ := toOption_map_eq_some.mp hrun
  obtain ⟨hdtos, hrequests⟩ := Prod.mk.inj hnames
  exact ⟨sdk, hsdk, hdtos, hrequests, (generate_declarable hsdk).mpr hfree⟩

/-- The member for a method clashes with the property that every request has. -/
theorem generate_actors_clashes : ∃ sdk,
    generate (actors "method") (.new "Acme" "App") = .ok sdk ∧
    ∃ f ∈ sdk.requests, declaredNames f = ["method", "method"] ∧ ¬ Declarable f := by
  have hrun : (generate (actors "method") (.new "Acme" "App")).toOption.map (fun sdk =>
      sdk.requests.map declaredNames) = some [["method", "method"]] := by
    decide +kernel
  obtain ⟨sdk, hsdk, hrequests⟩ := toOption_map_eq_some.mp hrun
  obtain ⟨f, hf, hnames⟩ := List.mem_map.mp (hrequests ▸ List.mem_singleton_self _)
  refine ⟨sdk, hsdk, f, hf, hnames, fun hdeclarable => ?_⟩
  have hdistinct := hdeclarable.distinct
  rw [hnames] at hdistinct
  exact absurd hdistinct (by decide)

end Sdk
end SdkSmith.Client
