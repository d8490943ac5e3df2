import SdkSmith.Proofs.Client.Plan.ClassNames
import SdkSmith.Proofs.Client.Plan.Grouping
import SdkSmith.Proofs.Naming.GivenNames

/-!
The names in a resource. Each endpoint that enters a resource is given a method beside those that
are there, and a request class that is neither taken nor reserved nor imported.
-/
namespace SdkSmith.Client
open Naming (Given GivenInTurn)

/-- The method that an endpoint is to have. -/
def wantedMethod (e : Api.Endpoint) : String :=
  Naming.variableName (sourceName e)

namespace Resource

variable {s : Settings} {r : Resource} {className : String}

/-- The methods that a resource's endpoints were to have, with those that they have. -/
def methodPairs (r : Resource) : List (String × String) :=
  r.calls.map fun c => (wantedMethod c.endpoint, c.method)

theorem calls_enter (s : Settings) (r : Resource) (e : Api.Endpoint) :
    (r.enter s e).calls = r.calls ++ [(r.plan s e).1] := rfl

theorem methods_eq (r : Resource) : r.methodPairs.map (·.2) = r.calls.map (·.method) := by
  rw [methodPairs, List.map_map]
  rfl

theorem plan_given (s : Settings) (r : Resource) (e : Api.Endpoint) :
    Given (r.calls.map (·.method)) (wantedMethod e) (r.plan s e).1.method :=
  Naming.freshVariable_given _ _

theorem plan_requestClass_free (s : Settings) (r : Resource) (e : Api.Endpoint) :
    (r.plan s e).1.requestClass ∉ r.calls.map (·.requestClass) :=
  Naming.freshNumbered_not_mem _ _

theorem plan_requestClass_isClear (s : Settings) (r : Resource) (e : Api.Endpoint) :
    IsClear (r.plan s e).1.requestClass :=
  freshNumbered_isClear (requestClassOf_isClear _) _

/-- What holds of the names in a resource after any endpoints. -/
structure WellNamed (r : Resource) : Prop where
  methods : GivenInTurn r.methodPairs
  requestClasses : (r.calls.map (·.requestClass)).Nodup
  isClear : ∀ c ∈ r.calls, IsClear c.requestClass

theorem WellNamed.given {before : List Call} {c : Call} (h : r.WellNamed)
    (hc : (before, c) ∈ withEarlier r.calls) :
    Given (before.map (·.method)) (wantedMethod c.endpoint) c.method := by
  have hpairs := h.methods
  rw [GivenInTurn, methodPairs, withEarlier_map] at hpairs
  have hgiven := hpairs _ (List.mem_map_of_mem hc)
  simpa only [List.map_map, Function.comp_def] using hgiven

theorem wellNamed_empty (className label : String) : (empty className label).WellNamed :=
  ⟨Naming.givenInTurn_nil, List.nodup_nil, fun _ h => nomatch h⟩

theorem WellNamed.enter (h : r.WellNamed) (s : Settings) (e : Api.Endpoint) :
    (r.enter s e).WellNamed := by
  have hpairs : (r.enter s e).methodPairs =
      r.methodPairs ++ [(wantedMethod e, (r.plan s e).1.method)] := by
    rw [methodPairs, calls_enter, List.map_append]
    rfl
  constructor
  case methods =>
    rw [hpairs, Naming.givenInTurn_append_singleton, methods_eq]
    exact ⟨h.methods, plan_given s r e⟩
  case requestClasses =>
    rw [calls_enter, List.map_append, List.map_singleton, ← List.concat_eq_append,
      List.nodup_concat]
    exact ⟨plan_requestClass_free s r e, h.requestClasses⟩
  case isClear =>
    rw [calls_enter, List.forall_mem_append]
    exact ⟨h.isClear, List.forall_mem_singleton.mpr (plan_requestClass_isClear s r e)⟩

theorem wellNamed_ofEndpoints (s : Settings) (className : String) (es : List Api.Endpoint) :
    (ofEndpoints s className es).WellNamed := by
  have hrun : ∀ r : Resource, r.WellNamed → (es.foldl (Resource.enter s) r).WellNamed := by
    induction es with
    | nil => exact fun r h => h
    | cons e es ih => exact fun r h => ih _ (h.enter s e)
  exact hrun _ (wellNamed_empty _ _)

end Resource

namespace Plan

variable {d : Api.Description} {s : Settings} {r : Resource}

/-- In a resource, no method and no request class is there twice. Each endpoint has the method that
it is to have, or where an earlier one has that the first free duplicate of it. No request class is
reserved or imported under that name. -/
theorem ofDescription_names (hr : r ∈ (ofDescription d s).resources) :
    (r.calls.map (·.method)).Nodup ∧ (r.calls.map (·.requestClass)).Nodup ∧
    (∀ before c after, r.calls = before ++ c :: after → Given (before.map (·.method))
      (Naming.variableName (sourceName c.endpoint)) c.method) ∧
    ∀ c ∈ r.calls, Naming.isReserved c.requestClass = false ∧ c.requestClass ∉ importedNames := by
  rw [ofDescription_resources] at hr
  have hnames : r.WellNamed := by
    rw [(mem_grouped.mp hr).2]
    exact Resource.wellNamed_ofEndpoints s _ _
  refine ⟨?_, hnames.requestClasses, ?_, hnames.isClear⟩
  · rw [← Resource.methods_eq]
    exact hnames.methods.nodup
  · intro before c after hsplit
    exact hnames.given (mem_withEarlier.mpr ⟨after, hsplit⟩)

/-- Endpoints of one collection, one for each name. -/
def named (names : List String) : Api.Description :=
  { Api.Description.empty with endpoints := names.map fun n => .plain n .get "/" }

/-- A duplicate is the natural name of the next endpoint, and a request class gives way twice. -/
theorem ofDescription_getUser_names : ∃ r ∈ (ofDescription
      (named ["get user", "Get-User", "get user duplicate1", "response", "response request"])
      (.new "Acme" "App")).resources,
    r.calls.map (·.method) = ["getUser", "getUserDuplicate1", "getUserDuplicate1Duplicate1",
      "response", "responseRequest"] ∧ (r.calls.map (·.method)).Nodup ∧
    r.calls.map (·.requestClass) = ["GetUser", "GetUserDuplicate1", "GetUserDuplicate1Duplicate1",
      "ResponseRequest", "ResponseRequest2"] ∧ (r.calls.map (·.requestClass)).Nodup := by
  have hrun : (ofDescription
      (named ["get user", "Get-User", "get user duplicate1", "response", "response request"])
      (.new "Acme" "App")).resources.map
        (fun r => (r.calls.map (·.method), r.calls.map (·.requestClass))) =
      [(["getUser", "getUserDuplicate1", "getUserDuplicate1Duplicate1", "response",
          "responseRequest"],
        ["GetUser", "GetUserDuplicate1", "GetUserDuplicate1Duplicate1", "ResponseRequest",
          "ResponseRequest2"])] := by decide +kernel
  obtain ⟨r, hr, hnames⟩ := List.mem_map.mp (hrun ▸ List.mem_singleton_self _)
  obtain ⟨hmethods, hclasses⟩ := Prod.mk.inj hnames
  obtain ⟨hdistinct, hdistinctClasses, -, -⟩ := ofDescription_names hr
  exact ⟨r, hr, hmethods, hdistinct, hclasses, hdistinctClasses⟩

end Plan
end SdkSmith.Client
