import SdkSmith.Proofs.Client.Connector.Credentials
import SdkSmith.Proofs.Client.Request.Reads

/-!
The constructor of a connector. It declares the keys and then the variables of the base URL, the
first of each name, but those with a default last. The class reads no other property.
-/
namespace SdkSmith.Client
open Php (Expr File Method Param)

variable {d : Api.Description} {s : Settings} {p : Plan} {f : File}

/-- The parameters that a connector is to have: for the keys that are asked for, and then for the
variables of the base URL. -/
def declaredParams (d : Api.Description) : List Param :=
  (asked d).map Credential.toParam ++ d.baseUrl.parameters.map serverParam

/-- Whether a constructor has the first parameter of each name, those with a default last, and
otherwise in their order. -/
structure HasFirstOf (declared : List Param) (f : File) : Prop where
  distinct : ((constructorParams f).map (·.name)).Nodup
  requiredFirst : (constructorParams f).Pairwise fun p q => p.default.isSome → q.default.isSome
  inOrder : ∀ optional,
    ((constructorParams f).filter fun p => p.default.isSome == optional).Sublist
      (declared.filter fun p => p.default.isSome == optional)
  first : ∀ p ∈ constructorParams f, declared.find? (fun q => q.name == p.name) = some p
  complete : ∀ p ∈ declared, ∃ q ∈ constructorParams f, q.name = p.name

/-! What is kept -/

/-- The declared parameters that are kept. -/
def keptParams (d : Api.Description) : List Param :=
  (credentials d).map Credential.toParam ++ (serverMembers d).map serverParam

theorem connectorParams_eq (d : Api.Description) :
    connectorParams d = requiredFirst (keptParams d) := rfl

theorem Credential.name_toParam (c : Credential) : c.toParam.name = c.name := by
  rw [toParam, Php.ParamOf.typed]

theorem name_serverParam (v : Api.ServerParameter) : (serverParam v).name = serverVariable v := by
  rw [serverParam]

theorem keptParams_sublist (d : Api.Description) : (keptParams d).Sublist (declaredParams d) := by
  have hkeys : (credentials d).Sublist (asked d) :=
    credentials_eq d ▸ firstOfName_sublist Credential.name [] (asked d)
  have hservers : (serverMembers d).Sublist d.baseUrl.parameters :=
    firstOfName_sublist serverVariable _ d.baseUrl.parameters
  exact (hkeys.map Credential.toParam).append (hservers.map serverParam)

theorem find?_of_mem_keptParams {p : Param} (h : p ∈ keptParams d) :
    (declaredParams d).find? (fun q => q.name == p.name) = some p := by
  rw [declaredParams, List.find?_append, List.find?_map, List.find?_map]
  simp only [Function.comp_def, Credential.name_toParam, name_serverParam]
  rcases List.mem_append.mp h with h | h
  · obtain ⟨c, hc, rfl⟩ := List.mem_map.mp h
    have hfind : (asked d).find? (fun b => b.name == c.name) = some c :=
      find?_of_mem_firstOfName (credentials_eq d ▸ hc)
    rw [Credential.name_toParam, hfind]
    rfl
  · obtain ⟨v, hv, rfl⟩ := List.mem_map.mp h
    -- no key that is asked for has the variable
    have hfree := ((mem_names_firstOfName serverVariable _ _).mp (List.mem_map_of_mem hv)).2
    have hnone : (asked d).find? (fun c => c.name == serverVariable v) = none := by
      refine List.find?_eq_none.mpr fun c hc heq => hfree ?_
      rw [mem_taken_keyring, mem_names_credentials, ← beq_iff_eq.mp heq]
      exact List.mem_map_of_mem hc
    rw [name_serverParam, hnone, find?_of_mem_firstOfName hv]
    rfl

/-- Each of the two groups stays as it was. -/
theorem filter_requiredFirst (ps : List Param) (optional : Bool) :
    (requiredFirst ps).filter (fun p => p.default.isSome == optional) =
      ps.filter fun p => p.default.isSome == optional := by
  rw [requiredFirst, List.filter_append, List.filter_filter, List.filter_filter]
  cases optional with
  | false => simp [← Option.not_isSome]
  | true => simp [← Option.not_isSome]

theorem pairwise_requiredFirst (ps : List Param) :
    (requiredFirst ps).Pairwise fun p q => p.default.isSome → q.default.isSome := by
  rw [requiredFirst, List.pairwise_append]
  refine ⟨List.pairwise_of_forall_mem_list fun p hp _ _ hsome => ?_,
    List.pairwise_of_forall_mem_list fun p _ q hq _ => (List.mem_filter.mp hq).2,
    fun p _ q hq _ => (List.mem_filter.mp hq).2⟩
  have hnone := (List.mem_filter.mp hp).2
  rw [Option.isNone_iff_eq_none] at hnone
  rw [hnone] at hsome
  cases hsome

variable (hclear : ∀ r ∈ p.resources, '\\' ∉ r.className.toList) (h : connectorFile d s p = .ok f)
include hclear h

theorem hasFirstOf_connectorFile : HasFirstOf (declaredParams d) f := by
  have hmem : ∀ {p : Param}, p ∈ connectorParams d ↔ p ∈ keptParams d :=
    (requiredFirst_perm (keptParams d)).mem_iff
  constructor
  all_goals rw [constructorParams_connectorFile hclear h]
  case distinct => exact (names_connectorParams d).nodup_iff.mpr (nodup_connectorNames d)
  case requiredFirst => exact pairwise_requiredFirst (keptParams d)
  case inOrder =>
    intro optional
    rw [connectorParams_eq, filter_requiredFirst]
    exact (keptParams_sublist d).filter _
  case first => exact fun p hp => find?_of_mem_keptParams (hmem.mp hp)
  case complete =>
    intro p hp
    have hname : p.name ∈ (connectorParams d).map (·.name) := by
      rw [(names_connectorParams d).mem_iff, mem_connectorNames]
      rcases List.mem_append.mp hp with hp | hp
      · obtain ⟨c, hc, rfl⟩ := List.mem_map.mp hp
        rw [Credential.name_toParam]
        exact Or.inl (List.mem_map_of_mem hc)
      · obtain ⟨v, hv, rfl⟩ := List.mem_map.mp hp
        rw [name_serverParam]
        exact Or.inr (List.mem_map_of_mem hv)
    exact List.mem_map.mp hname

omit hclear h

/-! What is read -/

theorem reads_exprOf (ps : List Php.Part) :
    (Template.exprOf ps).reads = (Template.exprOf ps).substitutions.map (·.2) := by
  unfold Template.exprOf
  split <;> rfl

theorem reads_baseUrlExpr {baseUrl : Expr} (h : baseUrlExpr d = .ok baseUrl) :
    baseUrl.reads ⊆ d.baseUrl.parameters.map serverVariable := by
  have hreads : baseUrl.reads = baseUrl.substitutions.map (·.2) := by
    unfold baseUrlExpr Template.render at h
    split at h
    · cases h
      exact reads_exprOf _
    · cases h
  intro y hy
  rw [hreads] at hy
  obtain ⟨x, hx, rfl⟩ := List.mem_map.mp hy
  obtain ⟨q, hq, -, hvariable⟩ := substitutions_baseUrlExpr h x hx
  rw [← hvariable]
  exact List.mem_map_of_mem hq

theorem reads_stmt (c : Credential) {names : List String} (h : c.name ∈ names) :
    c.stmt.ReadsOnly names := by
  rw [Credential.stmt, Php.Stmt.ReadsOnly]
  cases c.carrier <;> simp [Carrier.args, Expr.reads, Php.readsOfArgs, Expr.string, h]

theorem readsOnly_accessors {cs : List ClassRef} {ms : List Method} (names : List String)
    (h : List.Forall₂ (Accesses f) cs ms) : ∀ m ∈ ms, m.ReadsOnly names := by
  induction h with
  | nil => exact List.forall_mem_nil _
  | cons haccesses _ ih =>
    obtain ⟨name, rfl, -⟩ := haccesses
    refine List.forall_mem_cons.mpr ⟨?_, ih⟩
    rw [Php.readsOnly_returning]
    simp [Expr.reads, Php.readsOfArgs]

include hclear h in
/-- The methods of a connector read none but what its constructor declares. -/
theorem readsOwn_connectorFile : ReadsOwn f := by
  obtain ⟨baseUrl, accessors, hbaseUrl, hmethods, hall⟩ := accesses_connectorFile hclear h
  have hnames : ∀ {x}, x ∈ promotedNames f ↔ x ∈ connectorNames d := by
    intro x
    rw [mem_promotedNames_connectorFile hclear h, connectorNames, List.mem_append,
      mem_names_credentials]
    rfl
  rw [ReadsOwn, hmethods, ownMethods]
  simp only [List.forall_mem_append, List.forall_mem_cons]
  refine ⟨⟨?_, ?_, ?_, List.forall_mem_nil _⟩, readsOnly_accessors _ hall⟩
  · unfold connectorConstructors
    split
    · exact List.forall_mem_nil _
    · refine List.forall_mem_singleton.mpr fun statement hstatement => ?_
      obtain ⟨c, hc, rfl⟩ := List.mem_map.mp hstatement
      refine reads_stmt c (hnames.mpr ?_)
      exact List.mem_append_left _ (List.mem_map_of_mem hc)
  · rw [Php.readsOnly_returning]
    intro x hx
    rw [hnames, mem_connectorNames]
    exact Or.inr (reads_baseUrlExpr hbaseUrl hx)
  · refine List.forall_mem_singleton.mpr ?_
    simp [Php.Stmt.ReadsOnly, Expr.reads, Php.readsOfEntries, Expr.string]

/-- Where a connector is made, its constructor has the first parameter of each name that is
declared, and nothing else is read. -/
theorem connectorFile_isClosed (h : connectorFile d s (Plan.ofDescription d s) = .ok f) :
    HasFirstOf (declaredParams d) f ∧ ReadsOwn f := by
  have hclear : ∀ r ∈ (Plan.ofDescription d s).resources, '\\' ∉ r.className.toList :=
    fun _ => Plan.clear_className
  exact ⟨hasFirstOf_connectorFile hclear h, readsOwn_connectorFile hclear h⟩

/-- An API with a key in a cookie, where a key in the query has the same variable, and with a
variable of the base URL that has the variable of the key in the header. -/
def layered : Api.Description :=
  { Api.Description.empty with
    baseUrl := ⟨"https://\x7bregion\x7d.acme.test/\x7bapi key\x7d/\x7bversion\x7d",
      [⟨"region", some "eu", none⟩, ⟨"api key", some "public", none⟩, ⟨"version", none, none⟩]⟩
    security := [⟨"kept", []⟩, ⟨"sent", []⟩, ⟨"shown", []⟩, ⟨"sent", []⟩]
    components := ⟨[("kept", .apiKey "session" .cookie none),
      ("sent", .apiKey "X-Api-Key" .header none), ("shown", .apiKey "session" .query none)],
      [], []⟩ }

theorem connectorFile_layered_isClosed : ∃ f,
    connectorFile layered (.new "Acme" "App") (Plan.ofDescription layered (.new "Acme" "App")) =
      .ok f ∧
    (constructorParams f).map (·.name) = ["apiKey", "session", "version", "region"] ∧
    HasFirstOf (declaredParams layered) f ∧ ReadsOwn f := by
  have hrun : (connectorFile layered (.new "Acme" "App")
      (Plan.ofDescription layered (.new "Acme" "App"))).toOption.map
      (fun f => (constructorParams f).map (·.name)) =
      some ["apiKey", "session", "version", "region"] := by
    decide +kernel
  obtain ⟨f, hf, hnames⟩ := toOption_map_eq_some.mp hrun
  exact ⟨f, hf, hnames, connectorFile_isClosed hf⟩

end SdkSmith.Client
