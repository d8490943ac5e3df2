import SdkSmith.Text.Blank

/-!
Texts that are cut: at every character of a kind, after a leading text, or before a closing one.
What is cut apart can be put together again.
-/
namespace SdkSmith.Text

variable {p : Char → Bool} {s w : List Char} {ws : List (List Char)} {c : Char} {t : String}

/-! Pieces between the characters of a kind -/

theorem pieces_ne_nil (p : Char → Bool) (s : List Char) : pieces p s ≠ [] := by
  cases s with
  | nil => exact List.cons_ne_nil _ _
  | cons c s =>
    rw [pieces]
    split
    · exact List.cons_ne_nil _ _
    · split <;> exact List.cons_ne_nil _ _

theorem mem_pieces (hw : w ∈ pieces p s) (hc : c ∈ w) : c ∈ s ∧ p c = false := by
  fun_induction pieces p s generalizing w with
  | case1 => grind
  | case2 => grind
  | case3 => grind
  | case4 => grind

theorem pieces_cons (h : p c = false) (s : List Char) :
    ∃ w ws, pieces p (c :: s) = (c :: w) :: ws := by
  rw [pieces, if_neg (Bool.eq_false_iff.mp h)]
  cases pieces p s with
  | nil => exact ⟨[], [], rfl⟩
  | cons w ws => exact ⟨w, ws, rfl⟩

theorem pieces_eq_singleton (h : ∀ c ∈ w, p c = false) : pieces p w = [w] := by
  induction w with
  | nil => rfl
  | cons c w ih =>
    rw [List.forall_mem_cons] at h
    rw [pieces, if_neg (by rw [h.1]; exact Bool.false_ne_true), ih h.2]

theorem pieces_append_cons (h : ∀ c ∈ w, p c = false) (hc : p c = true) (s : List Char) :
    pieces p (w ++ c :: s) = w :: pieces p s := by
  induction w with
  | nil => rw [List.nil_append, pieces, if_pos hc]
  | cons d w ih =>
    rw [List.forall_mem_cons] at h
    rw [List.cons_append, pieces, if_neg (by rw [h.1]; exact Bool.false_ne_true), ih h.2]

/-- Pieces that are put together with a character of the kind between them come apart again. -/
theorem pieces_intercalate (hne : ws ≠ []) (h : ∀ w ∈ ws, ∀ c ∈ w, p c = false)
    (hc : p c = true) : pieces p (List.intercalate [c] ws) = ws := by
  induction ws with
  | nil => exact absurd rfl hne
  | cons w ws ih =>
    rw [List.forall_mem_cons] at h
    by_cases hws : ws = []
    · rw [hws, List.intercalate_singleton, pieces_eq_singleton h.1]
    · rw [List.intercalate_cons_of_ne_nil hws, List.append_assoc, List.singleton_append,
        pieces_append_cons h.1 hc, ih hws h.2]

/-- What is cut at each occurrence of a character comes together with that character. -/
theorem intercalate_pieces (c : Char) (s : List Char) :
    List.intercalate [c] (pieces (· == c) s) = s := by
  fun_induction pieces (· == c) s with
  | case1 => rfl
  | case2 d s hd ih =>
    rw [List.intercalate_cons_of_ne_nil (pieces_ne_nil _ _), ih, beq_iff_eq.mp hd]
    rfl
  | case3 d s hd hpieces ih => exact absurd hpieces (pieces_ne_nil _ _)
  | case4 d s hd w ws hpieces ih =>
    rw [hpieces] at ih
    refine Eq.trans ?_ (congrArg (d :: ·) ih)
    cases ws with
    | nil => rfl
    | cons w' ws => rfl

theorem not_mem_of_mem_split {u : String} (h : u ∈ split c t) : c ∉ u.toList := by
  obtain ⟨w, hw, rfl⟩ := List.mem_map.mp h
  rw [String.toList_ofList]
  intro hc
  simpa using (mem_pieces hw hc).2

theorem split_intercalate {ts : List String} (hne : ts ≠ []) (h : ∀ t ∈ ts, '/' ∉ t.toList) :
    split '/' ("/".intercalate ts) = ts := by
  have hpieces : pieces (· == '/') (List.intercalate ['/'] (ts.map String.toList)) =
      ts.map String.toList := by
    refine pieces_intercalate (by simpa using hne) ?_ (by simp)
    rw [List.forall_mem_map]
    intro t ht c hc
    rw [beq_eq_false_iff_ne]
    rintro rfl
    exact h t ht hc
  rw [split, String.toList_intercalate]
  change (pieces (· == '/') (List.intercalate ['/'] (ts.map String.toList))).map String.ofList = ts
  rw [hpieces, List.map_map]
  simp [Function.comp_def]

/-! A leading or a closing text -/

theorem dropLead?_eq_some {lead s r : List Char} : dropLead? lead s = some r ↔ s = lead ++ r := by
  fun_induction dropLead? lead s with
  | case1 s => simp [eq_comm]
  | case2 => simp
  | case3 c lead s ih => simp [ih]
  | case4 c lead d s h => simp [Ne.symm h]

theorem afterLead?_eq_some {lead r : String} : afterLead? lead t = some r ↔ t = lead ++ r := by
  rw [afterLead?, Option.map_eq_some_iff]
  simp only [dropLead?_eq_some]
  constructor
  · rintro ⟨w, hw, rfl⟩
    rw [← String.toList_inj, String.toList_append, hw, String.toList_ofList]
  · rintro rfl
    exact ⟨r.toList, String.toList_append, String.ofList_toList⟩

theorem beforeTail?_eq_some {tail r : String} : beforeTail? tail t = some r ↔ t = r ++ tail := by
  rw [beforeTail?, Option.map_eq_some_iff]
  simp only [dropLead?_eq_some]
  constructor
  · rintro ⟨w, hw, rfl⟩
    rw [← String.toList_inj, String.toList_append, String.toList_ofList, ← List.reverse_inj, hw]
    simp
  · rintro rfl
    exact ⟨r.toList.reverse, by simp, by simp⟩

end SdkSmith.Text
