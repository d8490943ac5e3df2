import Mathlib.Data.List.Infix
import SdkSmith.Client.Plan
import SdkSmith.Proofs.Naming.FreshNames

/-!
Class names that no request may have: reserved words, and what its files import. Such a name ends
neither in a digit nor in the suffix that it gives way to.
-/
namespace SdkSmith

theorem Text.toList_lower (s : String) : (lower s).toList = s.toList.map Char.toLower :=
  String.toList_ofList

namespace Naming

variable {name tail : String} {taken : List String}

theorem isReserved_eq_false : isReserved name = false ↔ Text.lower name ∉ reservedWords := by
  rw [isReserved, List.contains_eq_mem, decide_eq_false_iff_not]

/-- A suffix that no reserved word ends in makes a name that is not reserved. -/
theorem isReserved_append (h : ∀ w ∈ reservedWords, ¬ (Text.lower tail).toList <:+ w.toList)
    (name : String) : isReserved (name ++ tail) = false := by
  rw [isReserved_eq_false]
  intro hmem
  refine h _ hmem ?_
  rw [Text.toList_lower, Text.toList_lower, String.toList_append, List.map_append]
  exact List.suffix_append _ _

/-- Whether the last character is a digit. -/
def endsInDigit (s : String) : Bool :=
  s.toList.getLast?.any Char.isDigit

theorem endsInDigit_toString (n : Nat) : endsInDigit (toString n) := by
  have hne : Nat.toDigits 10 n ≠ [] := Nat.toDigits_ne_nil
  have hdigit := Nat.isDigit_of_mem_toDigits (by decide) (by decide) (List.getLast_mem hne)
  rw [endsInDigit, Nat.toString_eq_repr, Nat.toList_repr, List.getLast?_eq_getLast_of_ne_nil hne]
  exact hdigit

theorem endsInDigit_append (h : endsInDigit tail) (name : String) : endsInDigit (name ++ tail) := by
  rw [endsInDigit, Option.any_eq_true] at h ⊢
  obtain ⟨c, hc, hdigit⟩ := h
  refine ⟨c, ?_, hdigit⟩
  rw [String.toList_append, List.getLast?_append, hc]
  rfl

theorem endsInDigit_numbered (wanted : String) (n : Nat) : endsInDigit (numbered wanted n) :=
  endsInDigit_append (endsInDigit_toString n) wanted

theorem toLower_of_isDigit {c : Char} (h : c.isDigit) : c.toLower = c := by
  simp only [Char.isDigit, ge_iff_le, Bool.and_eq_true, decide_eq_true_eq] at h
  have hlow : ¬ (c.val ≥ 'A'.val ∧ c.val ≤ 'Z'.val) := by
    intro hupper
    have hle := UInt32.le_trans hupper.1 h.2
    exact absurd hle (by decide)
  exact dif_neg hlow

theorem endsInDigit_lower (h : endsInDigit name) : endsInDigit (Text.lower name) := by
  rw [endsInDigit, Option.any_eq_true] at h ⊢
  obtain ⟨c, hc, hdigit⟩ := h
  refine ⟨c, ?_, hdigit⟩
  rw [Text.toList_lower, List.getLast?_map, hc, Option.map_some, toLower_of_isDigit hdigit]

theorem endsInDigit_reserved : ∀ w ∈ reservedWords, endsInDigit w = false := by decide +kernel

theorem isReserved_of_endsInDigit (h : endsInDigit name) : isReserved name = false := by
  rw [isReserved_eq_false]
  intro hmem
  have hfalse := endsInDigit_reserved _ hmem
  rw [endsInDigit_lower h] at hfalse
  cases hfalse

/-- A class name is not reserved, where the suffix makes sure of it. -/
theorem isReserved_className (h : ∀ w ∈ reservedWords, ¬ (Text.lower tail).toList <:+ w.toList)
    (text : String) : isReserved (className text tail) = false := by
  simp only [className]
  generalize (if (studlyCase text).isEmpty then "Unnamed" else studlyCase text) = name
  split
  · exact isReserved_append h name
  · rename_i hfree
    exact Bool.eq_false_iff.mpr hfree

end Naming

namespace Client
open Naming (isReserved endsInDigit)

/-- A name that no file of a request or resource has in another use. -/
def IsClear (name : String) : Prop :=
  isReserved name = false ∧ name ∉ importedNames

/-- No reserved word ends in the suffix of request classes. -/
theorem request_not_suffix :
    ∀ w ∈ Naming.reservedWords, ¬ (Text.lower "Request").toList <:+ w.toList := by
  decide +kernel

theorem endsInDigit_imported : ∀ i ∈ importedNames, endsInDigit i = false := by decide +kernel

theorem isClear_of_endsInDigit {name : String} (h : endsInDigit name) : IsClear name := by
  refine ⟨Naming.isReserved_of_endsInDigit h, fun hmem => ?_⟩
  have hfalse := endsInDigit_imported _ hmem
  rw [h] at hfalse
  cases hfalse

theorem requestClassOf_isClear (method : String) : IsClear (requestClassOf method) := by
  have hgiven : ∀ i ∈ importedNames, i ++ "Request" ∉ importedNames := by decide +kernel
  simp only [requestClassOf]
  split
  · rename_i himported
    refine ⟨Naming.isReserved_append request_not_suffix _, hgiven _ ?_⟩
    exact List.mem_of_elem_eq_true himported
  · rename_i hfree
    refine ⟨Naming.isReserved_className request_not_suffix method, ?_⟩
    simpa using hfree

theorem freshNumbered_isClear {wanted : String} (h : IsClear wanted) (taken : List String) :
    IsClear (Naming.freshNumbered taken wanted) := by
  rcases Naming.freshNumbered_eq taken wanted with heq | ⟨n, heq⟩
  · rw [heq]
    exact h
  · rw [heq]
    exact isClear_of_endsInDigit (Naming.endsInDigit_numbered wanted n)

end Client
end SdkSmith
