import Mathlib.Data.List.Induction
import Mathlib.Data.List.Nodup
import SdkSmith.Proofs.Naming.FreshNames

/-!
Names given one after another. Each is given beside those before it: it is the wanted name where
that is free, and otherwise the first free duplicate of it. So no name is given twice.
-/
namespace SdkSmith

section
variable {α β : Type} {before : List α} {a : α} {l m : List α}

/-- Each element with those before it, of which some were there already. -/
def earlierFrom (before : List α) : List α → List (List α × α)
  | [] => []
  | a :: l => (before, a) :: earlierFrom (before ++ [a]) l

/-- Each element with those before it. -/
def withEarlier (l : List α) : List (List α × α) :=
  earlierFrom [] l

theorem earlierFrom_append (before l m : List α) :
    earlierFrom before (l ++ m) = earlierFrom before l ++ earlierFrom (before ++ l) m := by
  induction l generalizing before with
  | nil => simp [earlierFrom]
  | cons a l ih => simp [earlierFrom, ih]

theorem withEarlier_append (l m : List α) :
    withEarlier (l ++ m) = withEarlier l ++ earlierFrom l m :=
  earlierFrom_append [] l m

theorem withEarlier_append_singleton (l : List α) (a : α) :
    withEarlier (l ++ [a]) = withEarlier l ++ [(l, a)] :=
  withEarlier_append l [a]

theorem map_snd_withEarlier (l : List α) : (withEarlier l).map (·.2) = l := by
  induction l using List.reverseRecOn with
  | nil => rfl
  | append_singleton l a ih =>
    rw [withEarlier_append_singleton, List.map_append, ih]
    rfl

theorem withEarlier_map (f : α → β) (l : List α) :
    withEarlier (l.map f) = (withEarlier l).map fun x => (x.1.map f, f x.2) := by
  induction l using List.reverseRecOn with
  | nil => rfl
  | append_singleton l a ih =>
    rw [withEarlier_append_singleton, List.map_append, List.map_append, List.map_singleton,
      withEarlier_append_singleton, ih]
    rfl

theorem mem_withEarlier : (before, a) ∈ withEarlier l ↔ ∃ after, l = before ++ a :: after := by
  constructor
  · intro h
    induction l using List.reverseRecOn with
    | nil => cases h
    | append_singleton l b ih =>
      rw [withEarlier_append_singleton, List.mem_append, List.mem_singleton] at h
      rcases h with h | h
      · obtain ⟨after, hl⟩ := ih h
        exact ⟨after ++ [b], by simp [hl]⟩
      · cases h
        exact ⟨[], rfl⟩
  · rintro ⟨after, rfl⟩
    rw [withEarlier_append]
    exact List.mem_append_right _ List.mem_cons_self

end

namespace Naming

variable {taken : List String} {wanted name : String} {l : List (String × String)}

/-- The name that is given where others are taken. -/
inductive Given (taken : List String) (wanted : String) : String → Prop
  | wanted (hfree : wanted ∉ taken) : Given taken wanted wanted
  | duplicate (n : Nat) (htaken : wanted ∈ taken) (hpos : 1 ≤ n)
      (hfree : duplicateOf wanted n ∉ taken)
      (hbefore : ∀ j, 1 ≤ j → j < n → duplicateOf wanted j ∈ taken) :
      Given taken wanted (duplicateOf wanted n)

theorem duplicateOf_injective (wanted : String) (i j : Nat)
    (h : duplicateOf wanted i = duplicateOf wanted j) : i = j :=
  Nat.repr_injective ((String.append_right_inj _).mp h)

theorem freshVariable_given (taken : List String) (wanted : String) :
    Given taken wanted (freshVariable taken wanted) := by
  unfold freshVariable fresh
  split
  · rename_i htaken
    obtain ⟨n, hpos, heq, hfree, hbefore⟩ :=
      firstFree_spec taken 1 (duplicateOf_injective wanted)
    rw [heq]
    exact .duplicate n (by simpa using htaken) hpos hfree hbefore
  · rename_i hfree
    exact .wanted (by simpa using hfree)

theorem Given.not_mem (h : Given taken wanted name) : name ∉ taken := by
  cases h with
  | wanted hfree => exact hfree
  | duplicate n htaken hpos hfree hbefore => exact hfree

theorem Given.eq_wanted (h : Given taken wanted name) (hfree : wanted ∉ taken) : name = wanted := by
  cases h with
  | wanted => rfl
  | duplicate n htaken => exact absurd htaken hfree

/-- Names given in turn: each pair is what was wanted and what was given for it. -/
def GivenInTurn (l : List (String × String)) : Prop :=
  ∀ x ∈ withEarlier l, Given (x.1.map (·.2)) x.2.1 x.2.2

theorem givenInTurn_nil : GivenInTurn [] := fun _ h => nomatch h

theorem givenInTurn_append_singleton : GivenInTurn (l ++ [(wanted, name)]) ↔
    GivenInTurn l ∧ Given (l.map (·.2)) wanted name := by
  rw [GivenInTurn, withEarlier_append_singleton, List.forall_mem_append]
  exact and_congr_right fun _ => List.forall_mem_singleton

theorem GivenInTurn.nodup (h : GivenInTurn l) : (l.map (·.2)).Nodup := by
  induction l using List.reverseRecOn with
  | nil => exact List.nodup_nil
  | append_singleton l p ih =>
    obtain ⟨hl, hp⟩ := givenInTurn_append_singleton.mp h
    rw [List.map_append, List.nodup_append]
    refine ⟨ih hl, List.nodup_singleton _, ?_⟩
    intro n hn k hk hnk
    obtain rfl : k = p.2 := List.mem_singleton.mp hk
    exact hp.not_mem (hnk ▸ hn)

theorem GivenInTurn.of_append {m : List (String × String)} (h : GivenInTurn (l ++ m)) :
    GivenInTurn l := by
  intro x hx
  apply h x
  rw [withEarlier_append]
  exact List.mem_append_left _ hx

/-- What is wanted is given, if not here then before. -/
theorem GivenInTurn.wanted_mem (h : GivenInTurn l) : ∀ x ∈ l, x.1 ∈ l.map (·.2) := by
  intro x hx
  obtain ⟨before, after, rfl⟩ := List.append_of_mem hx
  have hgiven := h (before, x) (mem_withEarlier.mpr ⟨after, rfl⟩)
  rw [List.map_append, List.mem_append]
  by_cases hmem : x.1 ∈ before.map (·.2)
  · exact Or.inl hmem
  · right
    rw [List.map_cons, hgiven.eq_wanted hmem]
    exact List.mem_cons_self

/-- All names are the wanted ones exactly if no name is wanted twice. -/
theorem GivenInTurn.names_eq_iff (h : GivenInTurn l) :
    l.map (·.2) = l.map (·.1) ↔ (l.map (·.1)).Nodup := by
  constructor
  · intro heq
    exact heq ▸ h.nodup
  · intro hdistinct
    induction l using List.reverseRecOn with
    | nil => rfl
    | append_singleton l x ih =>
      obtain ⟨hl, hx⟩ := givenInTurn_append_singleton.mp h
      rw [List.map_append, List.map_singleton] at hdistinct
      have hnames := ih hl (List.nodup_append.mp hdistinct).1
      have hfree : x.1 ∉ l.map (·.2) := by
        rw [hnames]
        intro hmem
        exact (List.nodup_append.mp hdistinct).2.2 _ hmem _ (List.mem_singleton_self _) rfl
      rw [List.map_append, List.map_append, List.map_singleton, List.map_singleton, hnames,
        hx.eq_wanted hfree]

/-- The pairs in which the name is not the wanted one. -/
def gaveWay (l : List (String × String)) : List (String × String) :=
  l.filter fun x => x.2 ≠ x.1

theorem gaveWay_append_singleton (l : List (String × String)) (wanted name : String) :
    gaveWay (l ++ [(wanted, name)]) =
      if name = wanted then gaveWay l else gaveWay l ++ [(wanted, name)] := by
  rw [gaveWay, List.filter_append, gaveWay]
  split <;> rename_i h <;> simp [h]

end Naming
end SdkSmith
