import SdkSmith.Naming.Fresh
import Std.Data.String.ToNat

/-! Fresh names: the first alternate that is not taken is found, and it is the lowest. -/
namespace SdkSmith.Naming

variable {alternate : Nat → String}

/-- The search stops at the first free alternate, or after its last try. -/
theorem firstFree_eq (taken : List String) (alternate : Nat → String) (fuel start : Nat) :
    ∃ k ≤ fuel, firstFree taken alternate fuel start = alternate (start + k) ∧
    (∀ j < k, alternate (start + j) ∈ taken) ∧ (k < fuel → alternate (start + k) ∉ taken) := by
  induction fuel generalizing start with
  | zero => exact ⟨0, Nat.le_refl 0, rfl, by simp, by simp⟩
  | succ fuel ih =>
    unfold firstFree
    by_cases h : alternate start ∈ taken
    · obtain ⟨k, hk, heq, hbefore, hfree⟩ := ih (start + 1)
      refine ⟨k + 1, by omega, ?_, ?_, ?_⟩
      · rw [if_pos (by simpa using h), heq, Nat.add_assoc, Nat.add_comm 1 k]
      · intro j hj
        cases j with
        | zero => exact h
        | succ j =>
          have := hbefore j (by omega)
          rwa [Nat.add_assoc, Nat.add_comm 1 j] at this
      · intro hlt
        have := hfree (by omega)
        rwa [Nat.add_assoc, Nat.add_comm 1 k] at this
    · exact ⟨0, by omega, by rw [if_neg (by simpa using h)]; rfl, by simp, fun _ => h⟩

/-- Distinct alternates cannot all be taken, so the search among as many as there are taken names
and one more finds the lowest free one. -/
theorem firstFree_spec (taken : List String) (start : Nat)
    (hinj : ∀ i j, alternate i = alternate j → i = j) :
    ∃ n ≥ start, firstFree taken alternate taken.length start = alternate n ∧
      alternate n ∉ taken ∧ ∀ j, start ≤ j → j < n → alternate j ∈ taken := by
  obtain ⟨k, hk, heq, hbefore, hfree⟩ :=
    firstFree_eq taken alternate taken.length start
  have htaken : ∀ j, start ≤ j → j < start + k → alternate j ∈ taken := by
    intro j hj hjk
    have := hbefore (j - start) (by omega)
    rwa [Nat.add_sub_cancel' hj] at this
  refine ⟨start + k, Nat.le_add_right _ _, heq, ?_, htaken⟩
  rcases Nat.lt_or_eq_of_le hk with hlt | hlast
  · exact hfree hlt
  · intro hmem
    have hnodup : ((List.range (k + 1)).map fun j => alternate (start + j)).Nodup := by
      apply List.Pairwise.map _ _ List.nodup_range
      intro i j hij h
      have := hinj _ _ h
      omega
    have hsub : ((List.range (k + 1)).map fun j => alternate (start + j)) ⊆ taken := by
      intro a ha
      obtain ⟨j, hj, rfl⟩ := List.mem_map.mp ha
      rcases Nat.lt_or_eq_of_le (Nat.lt_succ_iff.mp (List.mem_range.mp hj)) with hj | rfl
      · exact hbefore j hj
      · exact hmem
    have := hnodup.length_le_of_subset hsub
    simp at this
    omega

theorem numbered_injective (wanted : String) (i j : Nat)
    (h : numbered wanted i = numbered wanted j) : i = j :=
  Nat.repr_injective ((String.append_right_inj wanted).mp h)

theorem freshNumbered_not_mem (taken : List String) (wanted : String) :
    freshNumbered taken wanted ∉ taken := by
  unfold freshNumbered fresh
  split
  · obtain ⟨n, -, heq, hfree, -⟩ := firstFree_spec taken 2 (numbered_injective wanted)
    rw [heq]
    exact hfree
  · rename_i h
    simpa using h

theorem freshNumbered_eq (taken : List String) (wanted : String) :
    freshNumbered taken wanted = wanted ∨ ∃ n, freshNumbered taken wanted = numbered wanted n := by
  unfold freshNumbered fresh
  split
  · obtain ⟨n, -, heq, -, -⟩ := firstFree_spec taken 2 (numbered_injective wanted)
    exact Or.inr ⟨n, heq⟩
  · exact Or.inl rfl

end SdkSmith.Naming
