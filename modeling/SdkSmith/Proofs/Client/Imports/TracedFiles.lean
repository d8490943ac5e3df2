import SdkSmith.Proofs.Client.Imports.TracedData

/-!
The request and resource classes of a client and its connector: each is built with the imports of
its header, and names no other classes.
-/
namespace SdkSmith.Client
open Php (Expr File Import Method)

variable {d : Api.Description} {s : Settings} {u : Usage} {f : File} {p : Plan}

/-! Request classes -/

variable {ms : List Member}

theorem traces_addConstructor (h : Traces u f) (ms : List Member) :
    Traces u (addConstructor f ms) := by
  unfold addConstructor
  split
  · exact h
  · refine h.addMethod ?_
    rw [Php.classNames_plain, Php.classNamesOfParams_subset, List.forall_mem_map]
    intro m _
    exact (classNames_toParam m).symm ▸ List.nil_subset _

theorem traces_addValues (h : Traces u f) (name : String) (ms : List Member) :
    Traces u (addValues f name ms) := by
  unfold addValues
  split
  · exact h
  · refine h.addMethod ?_
    rw [classNames_valuesMethod]
    exact List.nil_subset _

theorem traces_addBody (h : Traces u f) (ms : List Member) :
    Traces ((bodyImports ms).foldl Usage.fix u) (addBody f ms) := by
  unfold addBody bodyImports
  split
  · exact h
  · have himports := h.foldl_fix [⟨"Saloon\\Contracts\\Body\\HasBody", none⟩,
      ⟨"Saloon\\Traits\\Body\\HasJsonBody", none⟩]
    have hkept := himports.refers
    have hnames : ["HasBody", "HasJsonBody"] ⊆ ([⟨"Saloon\\Contracts\\Body\\HasBody", none⟩,
        ⟨"Saloon\\Traits\\Body\\HasJsonBody", none⟩].foldl Usage.fix u).names := by
      rw [List.foldl_cons, List.foldl_cons, List.foldl_nil, names_fix, names_fix,
        List.append_assoc]
      exact List.subset_append_right _ _
    rw [List.cons_subset, List.cons_subset] at hnames
    simp only [Php.File.addImport_declare]
    refine traces_addValues (himports.declare ?_ ?_) "defaultBody" ms
    · simp only [List.foldl_cons, List.foldl_nil, Php.File.declaration_addImport]
    · simp only [List.foldl_cons, List.foldl_nil, Php.File.declaration_addImport,
        Php.Class.classNames, List.append_subset, List.cons_subset] at hkept hnames ⊢
      exact ⟨⟨⟨⟨hkept.1.1.1.1, hkept.1.1.1.2, hnames.1, hnames.2.2⟩, hkept.1.1.2, hnames.2.1,
        hnames.2.2⟩, hkept.1.2⟩, hkept.2⟩

theorem classNames_responseExpr {names : List String} {className : String}
    (h : className ∈ names) (isList : Bool) :
    (responseExpr className isList).classNames ⊆ names := by
  unfold responseExpr
  split
  · simpa [Expr.classNames, Php.classNamesOfArgs, Php.classNamesOfParams, Php.declaredClassNames,
      Php.PhpType.array, Php.PhpType.classNames, Php.builtinTypes, Php.ParamOf.typed] using h
  · simpa [Expr.classNames, Php.classNamesOfArgs] using h

theorem traces_addResponse (h : Traces u f) (c : ClassRef) (isList : Bool) :
    Traces ((u.fix ⟨"Saloon\\Http\\Response", none⟩).add "Dto" c) (addResponse f c isList) := by
  have himports := (h.fix ⟨"Saloon\\Http\\Response", none⟩).add "Dto" c
  have hresponse : "Response" ∈ ((u.fix ⟨"Saloon\\Http\\Response", none⟩).add "Dto" c).names := by
    rw [names_add, names_fix]
    exact List.mem_append_left _ (List.mem_append_right _ List.mem_cons_self)
  have hclass := (h.fix ⟨"Saloon\\Http\\Response", none⟩).mem_names "Dto" c
  refine himports.addMethod ?_
  rw [Php.classNames_returning, List.append_subset, List.append_subset]
  refine ⟨⟨List.cons_subset.mpr ⟨hresponse, List.nil_subset _⟩, List.nil_subset _⟩, ?_⟩
  exact classNames_responseExpr hclass isList

theorem traces_requestStart (s : Settings) (r : Resource) (c : Call) :
    Traces ([⟨"Saloon\\Enums\\Method", none⟩, ⟨"Saloon\\Http\\Request", none⟩].foldl Usage.fix
      (.empty (r.requestRef s c))) (requestStart s r c) := by
  unfold requestStart
  refine Traces.start [⟨"Saloon\\Enums\\Method", none⟩, ⟨"Saloon\\Http\\Request", none⟩]
    (r.requestRef s c) (by rw [List.foldl_cons, List.foldl_cons, List.foldl_nil]; rfl) rfl ?_
  have hnames : ["Request", "Method", "Method"] ⊆ ([⟨"Saloon\\Enums\\Method", none⟩,
    ⟨"Saloon\\Http\\Request", none⟩].map Import.visible) := by decide
  exact hnames

theorem traces_requestFile (d : Api.Description) (s : Settings) (classes : DtoClasses)
    (r : Resource) (c : Call) : Traces (Header.ofRequest d s classes r c).usage
      (requestFile d s classes r c) := by
  have hpath := (traces_requestStart s r c).addMethod
    (m := .returning "resolveEndpoint" [] .string c.endpointExpr) (by
      rw [Php.classNames_returning, classNames_endpointExpr]
      exact List.nil_subset _)
  have hmembers := traces_addBody (traces_addConstructor hpath c.members) (c.membersIn .body)
  have hvalues := traces_addValues (traces_addValues hmembers "defaultQuery" (c.membersIn .query))
    "defaultHeaders" (c.membersIn .header)
  rw [← List.foldl_append] at hvalues
  have hnone : responseImports none = [] := rfl
  unfold requestFile
  rw [Header.usage, Header.ofRequest]
  split
  · rename_i response isList hresponse
    have hsome : responseImports (some (response, isList)) =
        [⟨"Saloon\\Http\\Response", none⟩] := rfl
    simp only [hresponse, hsome, Option.map_some, Option.toList_some]
    rw [List.foldl_append]
    exact traces_addResponse hvalues response isList
  · rename_i hresponse
    simp only [hresponse, hnone, Option.map_none, Option.toList_none, List.append_nil]
    exact hvalues

/-! Resource classes -/

theorem classNames_sendMethod {names : List String} {className : String}
    (hclass : className ∈ names) (hresponse : "Response" ∈ names) (c : Call) :
    (c.sendMethod className).classNames ⊆ names := by
  have hparams : Php.classNamesOfParams (c.members.map Member.toParam) ⊆ names := by
    rw [Php.classNamesOfParams_subset, List.forall_mem_map]
    intro m _
    exact (classNames_toParam m).symm ▸ List.nil_subset _
  have hmethod : (c.sendMethod className).classNames =
      Php.classNamesOfParams (c.members.map Member.toParam) ++ ["Response"] ++
        (Expr.methodCall (.thisProperty "connector") "send"
          [.new className (c.members.map fun m => .variable m.name)]).classNames :=
    Php.classNames_returning c.method _ _ _
  rw [hmethod, List.append_subset, List.append_subset]
  refine ⟨⟨hparams, List.cons_subset.mpr ⟨hresponse, List.nil_subset _⟩⟩, ?_⟩
  simp [Expr.classNames, Php.classNamesOfArgs, classNames_variables, hclass]

theorem traces_addCall (h : Traces u f) (hresponse : "Response" ∈ u.names) (s : Settings)
    (r : Resource) (c : Call) :
    Traces (u.add "Request" (r.requestRef s c)) (addCall s r f c) := by
  have hkept := names_subset_add u "Request" (r.requestRef s c) hresponse
  rw [addCall_eq]
  exact (h.add "Request" (r.requestRef s c)).addMethod
    (classNames_sendMethod (h.mem_names "Request" (r.requestRef s c)) hkept c)

theorem traces_resourceStart (s : Settings) (r : Resource) :
    Traces (((Usage.empty (r.classRef s)).fix
      (baseImport r.className (resourceBase s) "BaseResource")).fix
        ⟨"Saloon\\Http\\Response", none⟩) (resourceStart s r) := by
  have hextended := Traces.extend_empty (r.classRef s) (resourceBase s) "BaseResource"
  have himport := hextended.fix ⟨"Saloon\\Http\\Response", none⟩
  simp only [resourceStart, Resource.classRef] at himport ⊢
  generalize importBase _ (resourceBase s) "BaseResource" = imported at himport ⊢
  exact himport

theorem traces_foldl_addCall (h : Traces u f) (hresponse : "Response" ∈ u.names) (s : Settings)
    (r : Resource) (calls : List Call) :
    Traces ((calls.map (r.requestRef s)).foldl (Usage.add "Request") u)
      (calls.foldl (addCall s r) f) := by
  induction calls generalizing u f with
  | nil => exact h
  | cons c calls ih =>
    have hkept := names_subset_add u "Request" (r.requestRef s c) hresponse
    rw [List.map_cons, List.foldl_cons, List.foldl_cons]
    exact ih (traces_addCall h hresponse s r c) hkept

theorem traces_resourceFile (s : Settings) (r : Resource) :
    Traces (Header.ofResource s r).usage (resourceFile s r) := by
  refine traces_foldl_addCall (traces_resourceStart s r) ?_ s r r.calls
  rw [names_fix]
  exact List.mem_append_right _ List.mem_cons_self

/-! The connector -/

theorem traces_connectorStart (s : Settings) :
    Traces ((Usage.empty ⟨s.namespaceName, connectorName s⟩).fix
      (baseImport (connectorName s) "Saloon\\Http\\Connector" "SaloonConnector"))
      (connectorStart s) := by
  have himport := Traces.extend_empty ⟨s.namespaceName, connectorName s⟩
    "Saloon\\Http\\Connector" "SaloonConnector"
  simp only [connectorStart] at himport ⊢
  generalize importBase _ "Saloon\\Http\\Connector" "SaloonConnector" = imported at himport ⊢
  exact himport

/-- Whether an import is there already, or is not needed. -/
def Settled (f : File) (i : Import) : Prop :=
  File.sees f.namespaceName i = true ∨ i ∈ f.imports

theorem settled_addImport (f : File) (i : Import) : Settled (f.addImport i) i := by
  rw [Settled, Php.File.namespaceName_addImport]
  by_cases hsees : File.sees f.namespaceName i = true
  · exact Or.inl hsees
  · exact Or.inr (Php.File.mem_imports_addImport (Bool.eq_false_iff.mpr hsees))

theorem Settled.addImport {i : Import} (h : Settled f i) (j : Import) :
    Settled (f.addImport j) i := by
  rw [Settled, Php.File.namespaceName_addImport]
  exact h.imp_right fun hmem => Php.File.subset_imports_addImport f j hmem

theorem Settled.eq {i : Import} (h : Settled f i) : f.addImport i = f := by
  unfold File.addImport
  rw [if_pos]
  rw [Bool.or_eq_true, List.contains_iff_mem]
  exact h

/-- Imports of one kind change nothing after the first. -/
theorem foldl_addImport_filter {α : Type} [DecidableEq α] {g : α → Import} {a : α}
    (h : Settled f (g a)) (as : List α) :
    ((as.filter fun b => !b == a).map g).foldl File.addImport f =
      (as.map g).foldl File.addImport f := by
  induction as generalizing f with
  | nil => rfl
  | cons b as ih =>
    by_cases hb : b = a
    · rw [List.filter_cons_of_neg (by simp [hb]), List.map_cons, List.foldl_cons, hb, h.eq, ih h]
    · rw [List.filter_cons_of_pos (by simp [hb]), List.map_cons, List.map_cons, List.foldl_cons,
        List.foldl_cons, ih (h.addImport _)]

theorem foldl_addImport_eraseDups {α : Type} [DecidableEq α] (g : α → Import) (as : List α)
    (f : File) : (as.eraseDups.map g).foldl File.addImport f =
      (as.map g).foldl File.addImport f := by
  -- what is left of the list after its first element is shorter
  induction hlength : as.length using Nat.strong_induction_on generalizing as f with
  | _ n ih =>
    cases as with
    | nil => rw [List.eraseDups_nil]
    | cons a as =>
      have hshorter : (as.filter fun b => !b == a).length < n := by
        rw [← hlength]
        exact Nat.lt_succ_of_le (List.length_filter_le _ _)
      rw [List.eraseDups_cons, List.map_cons, List.foldl_cons, ih _ hshorter _ _ rfl,
        foldl_addImport_filter (settled_addImport f (g a)), List.map_cons, List.foldl_cons]

theorem visible_authImport (carrier : Carrier) :
    carrier.authImport.visible = carrier.authenticator := by
  cases carrier with
  | header => decide
  | query => decide

theorem importAuthenticators_eq (d : Api.Description) (f : File) :
    (credentials d).foldl (fun f c => f.addImport
      ⟨"Saloon\\Http\\Auth\\" ++ c.carrier.authenticator, none⟩) f =
      (authenticators d).foldl File.addImport f := by
  rw [authenticators, foldl_addImport_eraseDups, List.map_map, List.foldl_map]
  rfl

theorem classNames_serverParam (q : Api.ServerParameter) : (serverParam q).classNames = [] := by
  rw [Php.ParamOf.classNames, serverParam]
  cases q.default <;> rfl

theorem classNames_connectorParams (d : Api.Description) (names : List String) :
    Php.classNamesOfParams (connectorParams d) ⊆ names := by
  rw [Php.classNamesOfParams_subset]
  intro p hp
  rcases List.mem_append.mp ((requiredFirst_perm _).mem_iff.mp hp) with hp | hp
  · obtain ⟨c, -, rfl⟩ := List.mem_map.mp hp
    exact List.nil_subset _
  · obtain ⟨q, -, rfl⟩ := List.mem_map.mp hp
    rw [classNames_serverParam]
    exact List.nil_subset _

theorem classNames_stmt (c : Credential) : c.stmt.classNames = [c.carrier.authenticator] := by
  rw [Credential.stmt, Php.Stmt.classNames]
  cases c.carrier <;> rfl

theorem traces_addConnectorConstructor (h : Traces u f) (d : Api.Description) :
    Traces ((authenticators d).foldl Usage.fix u) (addConnectorConstructor d f) := by
  have himports := h.foldl_fix (authenticators d)
  unfold addConnectorConstructor
  simp only [importAuthenticators_eq]
  split
  · exact himports
  · refine himports.addMethod ?_
    rw [Method.classNames, List.append_subset, List.append_subset]
    refine ⟨⟨classNames_connectorParams d _, List.nil_subset _⟩, ?_⟩
    rw [Php.flatMap_subset, List.forall_mem_map]
    intro c hc
    rw [classNames_stmt, List.cons_subset, names_foldl_fix, ← visible_authImport]
    refine ⟨List.mem_append_right _ (List.mem_map_of_mem ?_), List.nil_subset _⟩
    exact List.mem_map_of_mem (List.mem_eraseDups.mpr (List.mem_map_of_mem hc))

theorem traces_addAccessor (h : Traces u f) (c : ClassRef) :
    Traces (u.add "Resource" c) (addAccessor f c) := by
  have hclass := h.mem_names "Resource" c
  rw [addAccessor_eq]
  refine (h.add "Resource" c).addMethod ?_
  rw [Php.classNames_returning, List.append_subset, List.append_subset]
  refine ⟨⟨List.nil_subset _, List.Subset.trans (classNames_named _) ?_⟩, ?_⟩
  · exact List.cons_subset.mpr ⟨hclass, List.nil_subset _⟩
  · exact List.cons_subset.mpr ⟨hclass, List.nil_subset _⟩

theorem traces_foldl_addAccessor (h : Traces u f) (cs : List ClassRef) :
    Traces (cs.foldl (Usage.add "Resource") u) (cs.foldl addAccessor f) := by
  induction cs generalizing u f with
  | nil => exact h
  | cons c cs ih =>
    rw [List.foldl_cons, List.foldl_cons]
    exact ih (traces_addAccessor h c)

theorem traces_connectorFile (h : connectorFile d s p = .ok f) :
    Traces (Header.ofConnector d s p).usage f := by
  obtain ⟨baseUrl, hbaseUrl, h⟩ := bind_eq_ok.mp h
  obtain rfl := Except.ok.inj h
  have hconstructor := traces_addConnectorConstructor (traces_connectorStart s) d
  have hbase := hconstructor.addMethod (m := .returning "resolveBaseUrl" [] .string baseUrl) (by
    rw [Php.classNames_returning, classNames_render hbaseUrl]
    exact List.nil_subset _)
  have hheaders := hbase.addMethod (m := headersMethod) (List.nil_subset _)
  exact traces_foldl_addAccessor hheaders (sortedResources s p)

/-! Clients -/

theorem forall₂_map {α β γ : Type} {R : β → γ → Prop} {f : α → β} {g : α → γ} {l : List α}
    (h : ∀ a ∈ l, R (f a) (g a)) : List.Forall₂ R (l.map f) (l.map g) := by
  rw [List.forall₂_map_left_iff, List.forall₂_map_right_iff, List.forall₂_same]
  exact h

theorem forall₂_flatMap {α β γ : Type} {R : β → γ → Prop} {f : α → List β} {g : α → List γ}
    {l : List α} (h : ∀ a ∈ l, List.Forall₂ R (f a) (g a)) :
    List.Forall₂ R (l.flatMap f) (l.flatMap g) := by
  induction l with
  | nil => exact .nil
  | cons a l ih =>
    rw [List.forall_mem_cons] at h
    exact List.rel_append h.1 (ih h.2)

/-- The data classes that are responses, or those that are not. -/
theorem traces_dtoFiles (d : Api.Description) (s : Settings) (p : Bool → Bool) :
    List.Forall₂ (fun x f => Traces (Header.usage x) f)
      (((schemaClasses d s).filter fun x => p (d.components.isResponse x.1)).map
        fun x => Header.ofDto d s (dtoClasses d s) x.2.1 x.2.2)
      (((dtoFiles d s (dtoClasses d s)).filter fun f => p f.isResponse).map (·.file)) := by
  rw [dtoFiles_filter, schemaFiles, List.filter_map, List.map_map]
  exact forall₂_map fun x _ => traces_dtoFile d s (dtoClasses d s) x.1 x.2.1 x.2.2

/-- The files of a client are built with the imports of its headers, in their order. -/
theorem Sdk.generate_traces {sdk : Sdk} (h : generate d s = .ok sdk) :
    List.Forall₂ (fun x f => Traces x.usage f) (headers d s) sdk.files := by
  obtain ⟨-, connector, hconnector, rfl⟩ := generate_eq_ok h
  have hfixed : List.Forall₂ (fun x f => Traces (Header.usage x) f)
      [.ofResourceBase s, .ofDtoBase s, .ofContract s, .ofTrait s]
      (Support.resourceFile s :: Support.otherFiles s) :=
    .cons (traces_resourceBase s) (.cons (traces_dtoBase s)
      (.cons (traces_contract s) (.cons (traces_trait s) .nil)))
  have hrequests : List.Forall₂ (fun x f => Traces (Header.usage x) f)
      ((Plan.ofDescription d s).resources.flatMap
        fun r => r.calls.map (Header.ofRequest d s (dtoClasses d s) r))
      ((Plan.ofDescription d s).resources.flatMap
        fun r => r.calls.map (requestFile d s (dtoClasses d s) r)) :=
    forall₂_flatMap fun r _ => forall₂_map fun c _ => traces_requestFile d s (dtoClasses d s) r c
  have hresources : List.Forall₂ (fun x f => Traces (Header.usage x) f)
      ((Plan.ofDescription d s).resources.map (Header.ofResource s))
      ((Plan.ofDescription d s).resources.map (resourceFile s)) :=
    forall₂_map fun r _ => traces_resourceFile s r
  have hconnectors : List.Forall₂ (fun x f => Traces (Header.usage x) f)
      [Header.ofConnector d s (Plan.ofDescription d s)] [connector] :=
    .cons (traces_connectorFile hconnector) .nil
  exact List.rel_append (List.rel_append (List.rel_append (List.rel_append (List.rel_append hfixed
    (traces_dtoFiles d s (!·))) (traces_dtoFiles d s id)) hrequests) hresources) hconnectors

theorem exists_left_of_mem {α β : Type} {R : α → β → Prop} {as : List α} {bs : List β} {b : β}
    (h : List.Forall₂ R as bs) (hb : b ∈ bs) : ∃ a ∈ as, R a b := by
  induction h with
  | nil => cases hb
  | cons hab _ ih =>
    rcases List.mem_cons.mp hb with rfl | hb
    · exact ⟨_, List.mem_cons_self, hab⟩
    · obtain ⟨a, ha, hR⟩ := ih hb
      exact ⟨a, List.mem_cons_of_mem _ ha, hR⟩

theorem map_eq_map_of_forall₂ {α β γ : Type} {R : α → β → Prop} {as : List α} {bs : List β}
    {f : α → γ} {g : β → γ} (h : List.Forall₂ R as bs) (heq : ∀ a b, R a b → g b = f a) :
    bs.map g = as.map f := by
  induction h with
  | nil => rfl
  | cons hab _ ih => rw [List.map_cons, List.map_cons, ih, heq _ _ hab]

/-- The files of a client are of the classes of its headers, in their order. -/
theorem Sdk.qualifiedName_files {sdk : Sdk} (h : generate d s = .ok sdk) :
    sdk.files.map (·.qualifiedName) = (headers d s).map (·.own.qualifiedName) :=
  map_eq_map_of_forall₂ (generate_traces h) fun x _ htraces =>
    htraces.qualifiedName.trans x.qualifiedName_usage

end SdkSmith.Client
