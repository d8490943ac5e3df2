import SdkSmith.Proofs.Client.Request.Placeholders
import SdkSmith.Proofs.Client.Request.Sending

/-!
The properties that a request class reads. They are members of its constructor, unless a
placeholder without words has a parameter of another name and stays as it is.
-/
namespace SdkSmith

namespace Php

mutual

/-- The properties of its object that an expression reads. -/
def Expr.reads : Expr → List String
  | .variable _ => []
  | .literal _ => []
  | .thisProperty name => [name]
  | .classConst _ _ => []
  | .array entries => readsOfEntries entries
  | .call _ args => readsOfArgs args
  | .methodCall object _ args => object.reads ++ readsOfArgs args
  | .staticCall _ _ args => readsOfArgs args
  | .new _ args => readsOfArgs args
  | .arrowFn params body => readsOfParams params ++ body.reads
  | .notIdentical left right => left.reads ++ right.reads
  | .interpolated parts => (parts.filterMap Part.substitution?).map (·.2)

/-- The properties that arguments read. -/
def readsOfArgs : List Expr → List String
  | [] => []
  | e :: es => e.reads ++ readsOfArgs es

/-- The properties that array entries read. -/
def readsOfEntries : List (Expr × Expr) → List String
  | [] => []
  | (k, v) :: es => k.reads ++ v.reads ++ readsOfEntries es

/-- The properties that the defaults of parameters read. -/
def readsOfParams : List (ParamOf Expr) → List String
  | [] => []
  | ⟨_, _, none, _, _⟩ :: ps => readsOfParams ps
  | ⟨_, _, some d, _, _⟩ :: ps => d.reads ++ readsOfParams ps

end

/-- Whether a statement is an expression that reads no other properties than these. -/
def Stmt.ReadsOnly (names : List String) : Stmt → Prop
  | .returns e => e.reads ⊆ names
  | .expr e => e.reads ⊆ names
  | .raw _ => False

/-- Whether every statement of a method reads no other properties than these. -/
def Method.ReadsOnly (names : List String) (m : Method) : Prop :=
  ∀ statement ∈ m.body, statement.ReadsOnly names

theorem readsOnly_returning (names : List String) (name : String) (params : List Param)
    (type : PhpType) (e : Expr) :
    (Method.returning name params type e).ReadsOnly names ↔ e.reads ⊆ names :=
  List.forall_mem_singleton

end Php

namespace Client
open Naming (camelCase variableName)
open Php (Expr File Method)

variable {s : Settings} {d : Api.Description} {r : Resource} {c : Call} {n : String}

/-- The members of a class that its constructor declares. -/
def promotedNames (f : File) : List String :=
  ((constructorParams f).filter fun p => p.promoted.isSome).map (·.name)

/-- A file of a class whose methods read none but the members that its constructor declares. -/
def ReadsOwn (f : File) : Prop :=
  ∀ m ∈ f.declaration.methods, m.ReadsOnly (promotedNames f)

theorem promotedNames_requestFile (d : Api.Description) (s : Settings) (classes : DtoClasses)
    (r : Resource) (c : Call) :
    promotedNames (requestFile d s classes r c) = c.members.map (·.name) := by
  rw [promotedNames, constructorParams_requestFile, List.filter_eq_self.mpr, List.map_map]
  · rfl
  · intro p hp
    obtain ⟨m, -, rfl⟩ := List.mem_map.mp hp
    rfl

/-! Methods -/

theorem readsOfEntries_map (ms : List Member) :
    Php.readsOfEntries (ms.map fun m => (Expr.string m.wireName, Expr.thisProperty m.name)) =
      ms.map (·.name) := by
  induction ms with
  | nil => rfl
  | cons m ms ih =>
    rw [List.map_cons, Php.readsOfEntries, ih]
    rfl

/-- The values of a place are read from its members. -/
theorem readsOnly_valuesMethods {names : List String} {ms : List Member}
    (h : ms.map (·.name) ⊆ names) (name : String) :
    ∀ m ∈ valuesMethods name ms, m.ReadsOnly names := by
  unfold valuesMethods
  split
  · exact List.forall_mem_nil _
  · rw [List.forall_mem_singleton]
    refine List.forall_mem_singleton.mpr ?_
    rw [Php.Stmt.ReadsOnly, Expr.reads, Php.readsOfArgs, Expr.reads, readsOfEntries_map]
    simpa [Php.readsOfArgs, Php.readsOfParams, Expr.reads, Expr.null, Php.ParamOf.untyped] using h

theorem readsOnly_constructors (names : List String) (ms : List Member) :
    ∀ m ∈ constructors ms, m.ReadsOnly names := by
  unfold constructors
  split
  · exact List.forall_mem_nil _
  · exact List.forall_mem_singleton.mpr (List.forall_mem_nil _)

theorem readsOnly_responseMethod (names : List String) (className : String) (isList : Bool) :
    (responseMethod className isList).ReadsOnly names := by
  rw [responseMethod, Php.readsOnly_returning, responseExpr]
  cases isList <;> simp [Expr.reads, Php.readsOfArgs, Php.readsOfParams, Php.ParamOf.typed]

theorem reads_endpointExpr (c : Call) :
    c.endpointExpr.reads = c.endpoint.placeholders.map c.propertyFor := by
  have hreads : c.endpointExpr.reads = c.endpointExpr.substitutions.map (·.2) := by
    rw [Call.endpointExpr]
    split
    · rfl
    · split
      · rfl
      · rw [Expr.reads, Expr.substitutions]
  rw [hreads, substitutions_endpointExpr, List.map_map]
  rfl

/-- A request class reads its own members exactly if the path does. -/
theorem readsOwn_requestFile (d : Api.Description) (s : Settings) (classes : DtoClasses)
    (r : Resource) (c : Call) : ReadsOwn (requestFile d s classes r c) ↔
      ∀ n ∈ c.endpoint.placeholders, c.propertyFor n ∈ c.members.map (·.name) := by
  obtain ⟨response, hresponse, hmethods⟩ := methods_requestFile d s classes r c
  have hplaces : ∀ place, (c.membersIn place).map (·.name) ⊆ c.members.map (·.name) :=
    fun place => List.map_subset _ (List.filter_sublist).subset
  rw [ReadsOwn, promotedNames_requestFile, hmethods]
  simp only [List.forall_mem_append, List.forall_mem_singleton, Php.readsOnly_returning]
  rw [reads_endpointExpr]
  constructor
  · rintro ⟨⟨⟨⟨⟨hpath, -⟩, -⟩, -⟩, -⟩, -⟩ n hn
    exact hpath (List.mem_map_of_mem hn)
  · intro hpath
    refine ⟨⟨⟨⟨⟨List.forall_mem_map.mpr hpath, readsOnly_constructors _ _⟩,
      readsOnly_valuesMethods (hplaces .body) _⟩, readsOnly_valuesMethods (hplaces .query) _⟩,
      readsOnly_valuesMethods (hplaces .header) _⟩, fun m hm => ?_⟩
    obtain ⟨className, isList, rfl⟩ := hresponse m hm
    exact readsOnly_responseMethod _ className isList

/-! Placeholders -/

/-- A placeholder is replaced by a member, unless it has no words and its parameter has another
name. -/
theorem propertyFor_mem_iff (h : c.members = (members s c.endpoint).members)
    (hn : n ∈ c.endpoint.placeholders) : c.propertyFor n ∈ c.members.map (·.name) ↔
      (camelCase n = "" → (placeholderParameter c.endpoint n).name = n) := by
  have harranged := Call.arranged h
  have hsubset : (c.membersIn .path).map (·.name) ⊆ c.members.map (·.name) :=
    List.map_subset _ (List.filter_sublist).subset
  by_cases hwords : camelCase n = ""
  · rw [← exists_standsFor hn hwords, ← harranged.path, forall_prop_of_true hwords,
      Call.propertyFor]
    constructor
    · intro hmem
      by_contra hnone
      have hfind : (c.membersIn .path).find? (fun m => m.standsFor n) = none :=
        List.find?_eq_none.mpr fun m hm hstands => hnone ⟨m, hm, hstands⟩
      rw [hfind] at hmem
      -- the name of a member would have words
      obtain ⟨m, hm, rfl⟩ := List.mem_map.mp hmem
      have hgiven := (sound_members s c.endpoint).given
      rw [← h] at hgiven
      exact Naming.camelCase_ne_empty (startsWithLetter_name hgiven m hm) hwords
    · intro hany
      obtain ⟨m, hm⟩ := Option.isSome_iff_exists.mp (List.find?_isSome.mpr hany)
      rw [hm]
      exact hsubset (List.mem_map_of_mem (List.mem_of_find?_eq_some hm))
  · refine iff_of_true ?_ fun hnone => absurd hnone hwords
    rw [propertyFor_eq_camelCase harranged.path hn hwords, ← variableName_eq_camelCase hwords]
    apply hsubset
    rw [harranged.path]
    exact List.map_subset _ (placed_subset _) (variable_mem_names hn)

/-- The request classes of a client read none but the members that their constructors declare,
exactly if each placeholder without words has a parameter of its own name. -/
theorem Sdk.generate_reads {sdk : Sdk} (h : generate d s = .ok sdk) :
    (∀ f ∈ sdk.requests, ReadsOwn f) ↔ ∀ e ∈ d.endpoints, ∀ n ∈ e.placeholders,
      camelCase n = "" → (placeholderParameter e n).name = n := by
  obtain ⟨-, connector, -, rfl⟩ := generate_eq_ok h
  have hcall : ∀ r ∈ (Plan.ofDescription d s).resources, ∀ c ∈ r.calls,
      ReadsOwn (requestFile d s (dtoClasses d s) r c) ↔ ∀ n ∈ c.endpoint.placeholders,
        camelCase n = "" → (placeholderParameter c.endpoint n).name = n := by
    intro r hr c hc
    rw [readsOwn_requestFile]
    refine forall_congr' fun n => forall_congr' fun hn => ?_
    exact propertyFor_mem_iff (Plan.members_of_mem_calls hr hc) hn
  constructor
  · intro hall e he
    obtain ⟨r, hr, c, hc, rfl⟩ := Plan.exists_call (s := s) he
    apply (hcall r hr c hc).mp
    exact hall _ (List.mem_flatMap.mpr ⟨r, hr, List.mem_map_of_mem hc⟩)
  · intro hspelled f hf
    obtain ⟨r, hr, hf⟩ := List.mem_flatMap.mp hf
    obtain ⟨c, hc, rfl⟩ := List.mem_map.mp hf
    exact (hcall r hr c hc).mpr (hspelled c.endpoint (Plan.endpoint_of_mem_calls hr hc))

/-- What changed between two versions, whose numbers are not declared. -/
def changes : Api.Description :=
  { Api.Description.empty with endpoints := [.plain "Get changes" .get "/changes/:1/:2"] }

theorem Sdk.generate_changes_reads : ∃ sdk, generate changes (.new "Acme" "App") = .ok sdk ∧
    ∃ f ∈ sdk.requests, promotedNames f = ["value", "valueDuplicate1"] ∧ ReadsOwn f := by
  have hrun : (generate changes (.new "Acme" "App")).toOption.map (fun sdk =>
      sdk.requests.map promotedNames) = some [["value", "valueDuplicate1"]] := by decide +kernel
  obtain ⟨sdk, hsdk, hnames⟩ := toOption_map_eq_some.mp hrun
  obtain ⟨f, hf, hpromoted⟩ := List.mem_map.mp (hnames ▸ List.mem_singleton_self _)
  have hspelled : ∀ e ∈ changes.endpoints, ∀ n ∈ e.placeholders,
      camelCase n = "" → (placeholderParameter e n).name = n := by decide +kernel
  exact ⟨sdk, hsdk, f, hf, hpromoted, (generate_reads hsdk).mpr hspelled f hf⟩

/-- The same versions, declared. -/
def declaredChanges : Api.Description :=
  { Api.Description.empty with endpoints := [
    { Api.Endpoint.plain "Get changes" .get "/changes/:1/:2" with
      pathParameters := [.plain "1" .int, .plain "2" .int] }] }

/-- The second version has the parameter of the first, and is read as it is. -/
theorem Sdk.generate_declaredChanges_reads :
    ∃ sdk, generate declaredChanges (.new "Acme" "App") = .ok sdk ∧
      ∃ f ∈ sdk.requests, promotedNames f = ["value", "valueDuplicate1"] ∧
        ∃ m e, f.declaration.method? "resolveEndpoint" = some m ∧ m.returned? = some e ∧
          e.reads = ["value", "2"] := by
  have hrun : (generate declaredChanges (.new "Acme" "App")).toOption.map (fun sdk =>
      sdk.requests.map fun f => (promotedNames f,
        ((f.declaration.method? "resolveEndpoint").bind (·.returned?)).map Expr.reads)) =
      some [(["value", "valueDuplicate1"], some ["value", "2"])] := by decide +kernel
  obtain ⟨sdk, hsdk, hfiles⟩ := toOption_map_eq_some.mp hrun
  obtain ⟨f, hf, hvalues⟩ := List.mem_map.mp (hfiles ▸ List.mem_singleton_self _)
  obtain ⟨hpromoted, hreads⟩ : _ ∧ _ := by simpa only [Prod.mk.injEq] using hvalues
  obtain ⟨e, he, heq⟩ := Option.map_eq_some_iff.mp hreads
  obtain ⟨m, hm, hreturned⟩ := Option.bind_eq_some_iff.mp he
  exact ⟨sdk, hsdk, f, hf, hpromoted, m, e, hm, hreturned, heq⟩

end Client
end SdkSmith
