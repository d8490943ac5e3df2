import SdkSmith.Api.Endpoint
import SdkSmith.Proofs.Text.Cutting

/-!
The segments of a path, which stand between its slashes. A colon before a name marks a placeholder,
and a notation with other marks comes to the same if it is put in terms of colons first.
-/
namespace SdkSmith

namespace Text

variable {lead tail name t : String}

theorem between?_eq_some :
    (afterLead? lead t).bind (beforeTail? tail) = some name ↔ t = lead ++ name ++ tail := by
  simp only [Option.bind_eq_some_iff, afterLead?_eq_some, beforeTail?_eq_some]
  constructor
  · rintro ⟨r, rfl, rfl⟩
    rw [String.append_assoc]
  · rintro rfl
    exact ⟨name ++ tail, String.append_assoc, rfl⟩

theorem split_slash (t : String) : split '/' ("/" ++ t) = "" :: split '/' t := by
  have hslash : pieces (· == '/') ('/' :: t.toList) = [] :: pieces (· == '/') t.toList := by
    rw [pieces, if_pos (beq_self_eq_true '/')]
  rw [split, String.toList_append]
  exact congrArg (List.map String.ofList) hslash

end Text

namespace Api

variable {text name lead tail : String} {ts : List String}

namespace PathSegment

/-- A segment is a placeholder exactly if it is a colon and a name. -/
theorem name?_parse : (parse text).name? = some name ↔ name ≠ "" ∧ text = ":" ++ name := by
  constructor
  · intro h
    unfold parse at h
    split at h
    · rename_i c r htext
      cases h
      refine ⟨by simp, ?_⟩
      rw [← String.toList_inj, htext]
      simp
    · cases h
  · rintro ⟨hne, rfl⟩
    obtain ⟨c, r, hcr⟩ := List.exists_cons_of_ne_nil (mt String.toList_eq_nil_iff.mp hne)
    rw [parse, String.toList_append, hcr]
    change some (String.ofList (c :: r)) = some name
    rw [← hcr, String.ofList_toList]

theorem parse_colon (h : name ≠ "") : parse (":" ++ name) = .placeholder name := by
  have hname := name?_parse.mpr ⟨h, rfl⟩
  cases hparse : parse (":" ++ name) with
  | literal text =>
    rw [hparse] at hname
    cases hname
  | placeholder other =>
    rw [hparse] at hname
    cases hname
    rfl

theorem parse_text (h : ∀ name, name ≠ "" → text ≠ ":" ++ name) : parse text = .literal text := by
  cases hparse : parse text with
  | literal t =>
    unfold parse at hparse
    split at hparse
    · cases hparse
    · exact hparse.symm
  | placeholder name =>
    have hname : (parse text).name? = some name := congrArg name? hparse
    obtain ⟨hne, heq⟩ := name?_parse.mp hname
    exact absurd heq (h name hne)

/-! Other marks -/

/-- A segment with a colon before its name if it is a name between two marks. -/
def respell (lead tail segment : String) : String :=
  match (Text.afterLead? lead segment).bind (Text.beforeTail? tail) with
  | some name => if name.isEmpty then segment else ":" ++ name
  | none => segment

theorem respell_token (h : name ≠ "") : respell lead tail (lead ++ name ++ tail) = ":" ++ name := by
  rw [respell, Text.between?_eq_some.mpr rfl]
  exact if_neg (by rwa [String.isEmpty_iff])

theorem respell_text (h : ∀ name, name ≠ "" → text ≠ lead ++ name ++ tail) :
    respell lead tail text = text := by
  rw [respell]
  split
  · rename_i name hname
    split
    · rfl
    · rename_i hempty
      exact absurd (Text.between?_eq_some.mp hname) (h name (mt String.isEmpty_iff.mpr hempty))
  · rfl

theorem respell_cases (lead tail text : String) :
    (∃ name, name ≠ "" ∧ text = lead ++ name ++ tail ∧ respell lead tail text = ":" ++ name) ∨
      (∀ name, name ≠ "" → text ≠ lead ++ name ++ tail) ∧ respell lead tail text = text := by
  by_cases h : ∃ name, name ≠ "" ∧ text = lead ++ name ++ tail
  · obtain ⟨name, hne, rfl⟩ := h
    exact Or.inl ⟨name, hne, rfl, respell_token hne⟩
  · have hnot : ∀ name, name ≠ "" → text ≠ lead ++ name ++ tail :=
      fun name hne heq => h ⟨name, hne, heq⟩
    exact Or.inr ⟨hnot, respell_text hnot⟩

theorem isEmpty_respell (lead tail text : String) :
    (respell lead tail text).isEmpty = text.isEmpty := by
  rcases respell_cases lead tail text with ⟨name, hne, rfl, heq⟩ | ⟨-, heq⟩
  · rw [heq, Bool.eq_iff_iff, String.isEmpty_iff, String.isEmpty_iff, ← String.toList_eq_nil_iff,
      ← String.toList_eq_nil_iff]
    simp [hne]
  · rw [heq]

theorem not_mem_respell (h : '/' ∉ text.toList) : '/' ∉ (respell lead tail text).toList := by
  rcases respell_cases lead tail text with ⟨name, -, rfl, heq⟩ | ⟨-, heq⟩
  · rw [heq]
    simp_all
  · rwa [heq]

end PathSegment

namespace Endpoint

theorem segmentsOf_slash (t : String) : segmentsOf ("/" ++ t) = segmentsOf t := by
  rw [segmentsOf, Text.split_slash]
  rfl

/-- Segments that are put together come apart again, except those that are empty. -/
theorem segmentsOf_respell (lead tail : String) (h : ∀ t ∈ ts, '/' ∉ t.toList) :
    segmentsOf ("/".intercalate (ts.map (PathSegment.respell lead tail))) =
      (ts.filter fun t => !t.isEmpty).map fun t => .parse (PathSegment.respell lead tail t) := by
  have hsplit : ts ≠ [] →
      Text.split '/' ("/".intercalate (ts.map (PathSegment.respell lead tail))) =
        ts.map (PathSegment.respell lead tail) := fun hts =>
    Text.split_intercalate (by simpa using hts)
      (List.forall_mem_map.mpr fun t ht => PathSegment.not_mem_respell (h t ht))
  by_cases hts : ts = []
  · subst hts
    rfl
  · rw [segmentsOf, hsplit hts, List.filter_map, List.map_map]
    simp only [Function.comp_def, PathSegment.isEmpty_respell]

end Endpoint
end Api
end SdkSmith
