import SdkSmith.Proofs.Client.Connector.BaseUrl
import SdkSmith.Proofs.Output.Paths

/-!
The texts of a path. Its components are what stands between its slashes; they are all that a path
has, so it can be read back from its text. The expression for a path has the same components, with
the names of placeholders in braces.
-/
namespace SdkSmith

namespace Output
variable {names : List String} {path name : String}

theorem isStep_of_mem_stepsOf (h : name ∈ stepsOf path) : IsStep name := by
  obtain ⟨hmem, hne⟩ := List.mem_filter.mp h
  constructor
  · rintro rfl
    cases hne
  · exact Text.not_mem_of_mem_split hmem

/-- Names with slashes between them are the steps of the path that they make. -/
theorem stepsOf_intercalate (h : ∀ n ∈ names, IsStep n) :
    stepsOf ("/".intercalate names) = names := by
  induction names with
  | nil => rfl
  | cons n names ih =>
    obtain ⟨hn, hnames⟩ := List.forall_mem_cons.mp h
    by_cases hempty : names = []
    · rw [hempty, String.intercalate_singleton, hn.stepsOf]
    · rw [String.intercalate_cons_of_ne_nil hempty, stepsOf_append, hn.stepsOf, ih hnames]
      rfl

end Output

namespace Api
open Output (stepsOf)

variable {e : Endpoint} {path : String}

namespace PathSegment

/-- Nothing is lost when a text is read as a segment. -/
theorem render_parse (text : String) : (parse text).render = text := by
  unfold parse
  split
  · rename_i c r htext
    rw [← String.toList_inj, htext, render, String.toList_append, String.toList_ofList,
      String.toList_ofList]
    rfl
  · rfl

/-- The text of a segment, with the name of a placeholder in braces. -/
def braced : PathSegment → String
  | .literal text => text
  | .placeholder name => "\x7b" ++ name ++ "\x7d"

end PathSegment

namespace Endpoint

theorem segmentsOf_eq (path : String) :
    segmentsOf path = (stepsOf path).map PathSegment.parse := rfl

theorem segments_plain (name : String) (method : HttpMethod) (path : String) :
    (plain name method path).segments = segmentsOf path := rfl

/-- The path of an endpoint has the components of the path that its segments are from. -/
theorem path_of_segments (h : e.segments = segmentsOf path) :
    e.path = "/" ++ "/".intercalate (stepsOf path) := by
  have hrender : (stepsOf path).map (PathSegment.render ∘ PathSegment.parse) = stepsOf path := by
    apply List.map_id''
    intro step
    exact PathSegment.render_parse step
  rw [Endpoint.path, h, segmentsOf_eq, List.map_map, hrender]

theorem segmentsOf_path (h : e.segments = segmentsOf path) : segmentsOf e.path = e.segments := by
  have hsteps : stepsOf ("/".intercalate (stepsOf path)) = stepsOf path := by
    apply Output.stepsOf_intercalate
    intro step hstep
    exact Output.isStep_of_mem_stepsOf hstep
  rw [path_of_segments h, segmentsOf_slash, segmentsOf_eq, hsteps, h, segmentsOf_eq]

end Endpoint
end Api

namespace Client
open Api (Endpoint HttpMethod PathSegment)
open Output (stepsOf)
open Php (Expr Part)

theorem sourceForm_partOf (property : String → String) (s : PathSegment) :
    (partOf property s).sourceForm = s.braced := by
  cases s <;> rfl

/-- The expression for a path has the segments of the path, whatever members there are. -/
theorem sourceForm?_endpointExpr (c : Call) : c.endpointExpr.sourceForm? =
    some ("/" ++ "/".intercalate (c.endpoint.segments.map PathSegment.braced)) := by
  obtain ⟨ps, hps, hjoin⟩ := exists_endpointParts c
  have hsource := hjoin Part.sourceForm fun _ => rfl
  simp only [sourceForm_partOf] at hsource
  rw [← hsource]
  rcases hps with heq | ⟨text, rfl, heq⟩
  · rw [heq]
    rfl
  · rw [heq]
    simp [Expr.string, Expr.sourceForm?, Part.sourceForm]

/-- A path comes back from the text of an endpoint that is made of it, which has the components of
the path and nothing else. So has the expression in a request class, where the names of placeholders
are in braces instead of after colons; what parameters are declared makes no difference. -/
theorem requestFile_keepsPath (d : Api.Description) (s : Settings) (classes : DtoClasses)
    (r : Resource) (path : String) :
    (∀ name method,
      (Endpoint.plain name method path).path = "/" ++ "/".intercalate (stepsOf path) ∧
      ∀ name' method',
        (Endpoint.plain name' method' (Endpoint.plain name method path).path).segments =
          (Endpoint.plain name method path).segments) ∧
    ∀ c : Call, c.endpoint.segments = Endpoint.segmentsOf path → ∃ m e,
      (requestFile d s classes r c).declaration.method? "resolveEndpoint" = some m ∧
      m.returned? = some e ∧
      e.sourceForm? =
        some ("/" ++ "/".intercalate ((Endpoint.segmentsOf path).map PathSegment.braced)) := by
  constructor
  · intro name method
    have hsegments := Endpoint.segments_plain name method path
    refine ⟨Endpoint.path_of_segments hsegments, ?_⟩
    intro name' method'
    exact (Endpoint.segments_plain name' method' _).trans (Endpoint.segmentsOf_path hsegments)
  · intro c hsegments
    refine ⟨_, c.endpointExpr, resolveEndpoint_requestFile d s classes r c, rfl, ?_⟩
    rw [sourceForm?_endpointExpr, hsegments]

/-- A path with components that are empty, that are a single colon or that begin with two, and that
have braces already. -/
def crowdedPath : String := "//users/:id/:/a:b///::x/\x7by\x7d/"

/-- A request to that path, one of whose placeholders is declared in another spelling. -/
def crowded : Api.Description :=
  { Api.Description.empty with endpoints := [
    { Endpoint.plain "Get" .get crowdedPath with pathParameters := [.plain "ID" .int] }] }

theorem requestFile_crowded_keepsPath :
    ∃ r ∈ (Plan.ofDescription crowded (.new "Acme" "App")).resources, ∃ c ∈ r.calls, ∃ m e,
      c.endpoint.segments = Endpoint.segmentsOf crowdedPath ∧
      (requestFile crowded (.new "Acme" "App") [] r c).declaration.method? "resolveEndpoint" =
        some m ∧ m.returned? = some e ∧
      e.sourceForm? = some "/users/\x7bid\x7d/:/a:b/\x7b:x\x7d/\x7by\x7d" := by
  have hrun : (Plan.ofDescription crowded (.new "Acme" "App")).resources.map (fun r =>
      r.calls.map (·.endpoint.segments)) = [[Endpoint.segmentsOf crowdedPath]] := by
    decide +kernel
  obtain ⟨r, hr, hcalls⟩ := List.mem_map.mp (hrun ▸ List.mem_singleton_self _)
  obtain ⟨c, hc, hsegments⟩ := List.mem_map.mp (hcalls ▸ List.mem_singleton_self _)
  obtain ⟨m, e, hm, he, hform⟩ :=
    (requestFile_keepsPath crowded (.new "Acme" "App") [] r crowdedPath).2 c hsegments
  refine ⟨r, hr, c, hc, m, e, hsegments, hm, he, hform.trans ?_⟩
  decide +kernel

end Client
end SdkSmith
