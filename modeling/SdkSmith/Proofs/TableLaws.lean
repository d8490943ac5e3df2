import Mathlib.Data.List.Induction
import SdkSmith.Table

/-! What the operations of tables keep: keys keep their places, pairs come from what was put. -/
namespace SdkSmith.Table

variable {κ α : Type} {k : κ} {v : α} {t l : List (κ × α)} {p : κ × α}

@[simp] theorem keys_nil : keys ([] : List (κ × α)) = [] := rfl

@[simp] theorem keys_cons : keys (p :: t) = p.1 :: keys t := rfl

@[simp] theorem keys_append : keys (t ++ l) = keys t ++ keys l := List.map_append

theorem mem_keys_of_mem (h : p ∈ t) : p.1 ∈ keys t := List.mem_map_of_mem h

variable [DecidableEq κ]

theorem find?_isSome : (find? k t).isSome ↔ k ∈ keys t := by
  induction t with
  | nil => simp [find?]
  | cons p t ih =>
    obtain ⟨k', v'⟩ := p
    by_cases hk : k' = k
    · simp [find?, hk]
    · simp [find?, hk, ih, Ne.symm hk]

@[simp] theorem has_iff : has k t = true ↔ k ∈ keys t := find?_isSome

theorem mem_of_find? (h : find? k t = some v) : (k, v) ∈ t := by
  induction t with
  | nil => simp [find?] at h
  | cons p t ih =>
    obtain ⟨k', v'⟩ := p
    by_cases hk : k' = k <;> simp_all [find?]

theorem mem_keys_of_find? (h : find? k t = some v) : k ∈ keys t :=
  mem_keys_of_mem (mem_of_find? h)

theorem find?_of_mem (hk : (keys t).Nodup) (h : (k, v) ∈ t) : find? k t = some v := by
  induction t with
  | nil => simp at h
  | cons p t ih =>
    obtain ⟨k', v'⟩ := p
    rw [keys_cons, List.nodup_cons] at hk
    rcases List.mem_cons.mp h with h | h
    · cases h
      simp [find?]
    · have hne : k' ≠ k := by
        rintro rfl
        have := mem_keys_of_mem h
        exact hk.1 this
      rw [find?, if_neg hne, ih hk.2 h]

theorem find?_append_of_some (h : find? k t = some v) : find? k (t ++ l) = some v := by
  induction t with
  | nil => simp [find?] at h
  | cons p t ih =>
    obtain ⟨k', v'⟩ := p
    by_cases hk : k' = k <;> simp_all [find?]

theorem find?_append_of_not_mem (h : k ∉ keys t) : find? k (t ++ [(k, v)]) = some v := by
  induction t with
  | nil => simp [find?]
  | cons p t ih =>
    rw [keys_cons, List.mem_cons, not_or] at h
    rw [List.cons_append, find?, if_neg (Ne.symm h.1), ih h.2]

theorem put_of_not_mem (h : k ∉ keys t) : put k v t = t ++ [(k, v)] := by
  induction t with
  | nil => rfl
  | cons p t ih =>
    rw [keys_cons, List.mem_cons, not_or] at h
    rw [put, if_neg (Ne.symm h.1), ih h.2, List.cons_append]

/-- A key put again keeps its place. -/
theorem put_append_cons (v v' : α) (l : List (κ × α)) (h : k ∉ keys t) :
    put k v (t ++ (k, v') :: l) = t ++ (k, v) :: l := by
  induction t with
  | nil => simp [put]
  | cons p t ih =>
    rw [keys_cons, List.mem_cons, not_or] at h
    rw [List.cons_append, put, if_neg (Ne.symm h.1), ih h.2, List.cons_append]

theorem put_of_find? (h : find? k t = some v) : put k v t = t := by
  induction t with
  | nil => cases h
  | cons p t ih =>
    obtain ⟨k', v'⟩ := p
    by_cases hk : k' = k <;> simp_all [find?, put]

theorem find?_put : find? k (put k v t) = some v := by
  induction t with
  | nil => simp [find?, put]
  | cons p t ih =>
    obtain ⟨k', v'⟩ := p
    by_cases hk : k' = k <;> simp_all [find?, put]

theorem find?_put_of_ne {k' : κ} (h : k' ≠ k) : find? k (put k' v t) = find? k t := by
  induction t with
  | nil => simp [find?, put, h]
  | cons p t ih =>
    obtain ⟨j, w⟩ := p
    by_cases hj : j = k'
    · simp [find?, put, hj, h]
    · rw [put, if_neg hj, find?, find?, ih]

theorem keys_put (h : k ∈ keys t) : keys (put k v t) = keys t := by
  induction t with
  | nil => cases h
  | cons p t ih =>
    obtain ⟨k', v'⟩ := p
    by_cases hk : k' = k
    · simp [put, hk]
    · rw [keys_cons, List.mem_cons] at h
      rw [put, if_neg hk, keys_cons, keys_cons, ih (h.resolve_left (Ne.symm hk))]

theorem mem_keys_put {k' : κ} : k' ∈ keys (put k v t) ↔ k' ∈ keys t ∨ k' = k := by
  by_cases hk : k ∈ keys t
  · rw [keys_put hk]
    exact ⟨Or.inl, fun h => h.elim id fun heq => heq ▸ hk⟩
  · rw [put_of_not_mem hk, keys_append, List.mem_append, keys_cons, keys_nil, List.mem_singleton]

theorem mem_keys_putAll : k ∈ keys (putAll t l) ↔ k ∈ keys t ∨ k ∈ keys l := by
  induction l generalizing t with
  | nil => simp [putAll]
  | cons p l ih =>
    have h := ih (t := put p.1 p.2 t)
    rw [mem_keys_put, or_assoc] at h
    rw [keys_cons, List.mem_cons]
    exact h

theorem find?_putAll_of_not_mem (h : k ∉ keys l) : find? k (putAll t l) = find? k t := by
  induction l generalizing t with
  | nil => rfl
  | cons p l ih =>
    rw [keys_cons, List.mem_cons, not_or] at h
    exact (ih h.2).trans (find?_put_of_ne (Ne.symm h.1))

/-- What is put last is found. -/
theorem find?_putAll (hk : (keys l).Nodup) (h : (k, v) ∈ l) : find? k (putAll t l) = some v := by
  induction l generalizing t with
  | nil => simp at h
  | cons p l ih =>
    rw [keys_cons, List.nodup_cons] at hk
    rcases List.mem_cons.mp h with rfl | h
    · exact (find?_putAll_of_not_mem hk.1).trans find?_put
    · exact ih hk.2 h

theorem nodup_put (h : (keys t).Nodup) (k : κ) (v : α) : (keys (put k v t)).Nodup := by
  by_cases hk : k ∈ keys t
  · rwa [keys_put hk]
  · rw [put_of_not_mem hk, keys_append, List.nodup_append]
    refine ⟨h, by simp, ?_⟩
    rintro a ha _ (_ | ⟨_, ⟨⟩⟩) rfl
    exact hk ha

theorem nodup_putAll (h : (keys t).Nodup) : (keys (putAll t l)).Nodup := by
  induction l generalizing t with
  | nil => exact h
  | cons p l ih => exact ih (nodup_put h p.1 p.2)

theorem mem_put (h : p ∈ put k v t) : p = (k, v) ∨ p ∈ t := by
  induction t with
  | nil => simpa [put] using h
  | cons q t ih =>
    obtain ⟨k', v'⟩ := q
    by_cases hk : k' = k
    · simp only [put, hk, if_pos, List.mem_cons] at h
      rcases h with h | h
      · exact Or.inl h
      · exact Or.inr (List.mem_cons_of_mem _ h)
    · simp only [put, hk, if_false, List.mem_cons] at h
      rcases h with h | h
      · exact Or.inr (h ▸ List.mem_cons_self)
      · exact (ih h).imp id (List.mem_cons_of_mem _)

theorem mem_putAll (h : p ∈ putAll t l) : p ∈ t ∨ p ∈ l := by
  induction l generalizing t with
  | nil => exact Or.inl h
  | cons q l ih =>
    rcases ih h with h | h
    · rcases mem_put h with rfl | h
      · exact Or.inr List.mem_cons_self
      · exact Or.inl h
    · exact Or.inr (List.mem_cons_of_mem _ h)

theorem nodup_ofList (l : List (κ × α)) : (keys (ofList l)).Nodup :=
  nodup_putAll List.nodup_nil

theorem ofList_append_singleton (l : List (κ × α)) (p : κ × α) :
    ofList (l ++ [p]) = put p.1 p.2 (ofList l) := by
  rw [ofList, putAll, List.foldl_append]
  rfl

/-- An entry of a table is the last pair that was put at its key. -/
theorem last_of_mem_ofList (h : p ∈ ofList l) :
    ∃ before after, l = before ++ p :: after ∧ p.1 ∉ keys after := by
  induction l using List.reverseRecOn with
  | nil => cases h
  | append_singleton l q ih =>
    rw [ofList_append_singleton] at h
    by_cases hkey : q.1 = p.1
    · have hfound : find? p.1 (put q.1 q.2 (ofList l)) = some p.2 :=
        find?_of_mem (nodup_put (nodup_ofList l) q.1 q.2) h
      rw [← hkey, find?_put, Option.some_inj] at hfound
      obtain rfl : q = p := Prod.ext hkey hfound
      exact ⟨l, [], rfl, List.not_mem_nil⟩
    · rcases mem_put h with rfl | h
      · exact absurd rfl hkey
      · obtain ⟨before, after, rfl, hafter⟩ := ih h
        refine ⟨before, after ++ [q], by simp, ?_⟩
        rw [keys_append, List.mem_append, not_or]
        exact ⟨hafter, fun hq => hkey (List.mem_singleton.mp hq).symm⟩

/-- Among the keys of one kind a pair is put, if its key is of that kind. -/
theorem filter_put (kind : κ → Bool) (k : κ) (v : α) (t : List (κ × α)) :
    (put k v t).filter (fun p => kind p.1) =
      if kind k then put k v (t.filter fun p => kind p.1) else t.filter fun p => kind p.1 := by
  induction t with
  | nil => cases hk : kind k <;> simp [put, hk]
  | cons p t ih =>
    obtain ⟨k', v'⟩ := p
    by_cases hkey : k' = k
    · subst hkey
      cases hk : kind k' <;> simp [put, hk]
    · rw [put, if_neg hkey, List.filter_cons, List.filter_cons, ih]
      cases hk' : kind k' <;> cases hk : kind k <;> simp [put, hkey]

/-- The entries of one kind are the table of the pairs of that kind. -/
theorem filter_ofList (kind : κ → Bool) (l : List (κ × α)) :
    (ofList l).filter (fun p => kind p.1) = ofList (l.filter fun p => kind p.1) := by
  induction l using List.reverseRecOn with
  | nil => rfl
  | append_singleton l q ih =>
    rw [ofList_append_singleton, filter_put, ih, List.filter_append]
    cases hq : kind q.1
    · simp [hq]
    · simp [hq, ofList_append_singleton]

end SdkSmith.Table
