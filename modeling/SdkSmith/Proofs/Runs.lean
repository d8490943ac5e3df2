/-! Runs of computations that may fail, taken apart step by step. -/
namespace SdkSmith

variable {ε α β : Type} {x : Except ε α} {f : α → Except ε β} {b : β} {l : List α} {l' : List β}

theorem bind_eq_ok : x >>= f = .ok b ↔ ∃ a, x = .ok a ∧ f a = .ok b := by
  cases x <;> simp [bind, Except.bind]

theorem seq_eq_ok {x : Except ε Unit} {y : Except ε β} :
    (do x; y) = .ok b ↔ x = .ok () ∧ y = .ok b := by
  cases x <;> simp [bind, Except.bind]

theorem map_eq_ok {g : α → β} : x.map g = .ok b ↔ ∃ a, x = .ok a ∧ g a = b := by
  cases x <;> simp [Except.map]

theorem bind_eq_error {e : ε} :
    x >>= f = .error e ↔ x = .error e ∨ ∃ a, x = .ok a ∧ f a = .error e := by
  cases x <;> simp [bind, Except.bind]

theorem map_eq_error {g : α → β} {e : ε} : x.map g = .error e ↔ x = .error e := by
  cases x <;> simp [Except.map]

theorem toOption_map_eq_some {g : α → β} :
    x.toOption.map g = some b ↔ ∃ a, x = .ok a ∧ g a = b := by
  cases x <;> simp [Except.toOption]

theorem option_forM_eq_ok {o : Option α} {f : α → Except ε Unit} :
    o.forM f = .ok () ↔ ∀ a, o = some a → f a = .ok () := by
  cases o <;> simp [Option.forM, pure, Except.pure]

theorem forIn_eq_ok {f : α → Except ε Unit} :
    (forIn l PUnit.unit fun a _ => do f a; pure (.yield PUnit.unit)) = .ok PUnit.unit ↔
      ∀ a ∈ l, f a = .ok () := by
  induction l with
  | nil => simp [pure, Except.pure]
  | cons a l ih =>
    rw [List.forIn_cons, List.forall_mem_cons, ← ih]
    cases h : f a <;> simp [bind, Except.bind, pure, Except.pure]

theorem mapM_cons_eq_ok {a : α} :
    (a :: l).mapM f = .ok l' ↔ ∃ b bs, f a = .ok b ∧ l.mapM f = .ok bs ∧ l' = b :: bs := by
  simp only [List.mapM_cons, bind_eq_ok, pure, Except.pure, Except.ok.injEq]
  constructor
  · rintro ⟨b, hb, bs, hbs, rfl⟩
    exact ⟨b, bs, hb, hbs, rfl⟩
  · rintro ⟨b, bs, hb, hbs, rfl⟩
    exact ⟨b, hb, bs, hbs, rfl⟩

/-- A list whose every image exists has them at its own places. -/
theorem getElem?_of_mapM (h : l.mapM f = .ok l') (i : Nat) {b : β} :
    l'[i]? = some b ↔ ∃ a, l[i]? = some a ∧ f a = .ok b := by
  induction l generalizing l' i with
  | nil =>
    cases h
    simp
  | cons a l ih =>
    obtain ⟨b', bs, hb, hbs, rfl⟩ := mapM_cons_eq_ok.mp h
    cases i with
    | zero => simp [hb]
    | succ i => simpa using ih hbs i

theorem exists_getElem?_of_mapM (h : l.mapM f = .ok l') {i : Nat} {a : α} (ha : l[i]? = some a) :
    ∃ b, l'[i]? = some b ∧ f a = .ok b := by
  induction l generalizing l' i with
  | nil => simp at ha
  | cons a' l ih =>
    obtain ⟨b, bs, hb, hbs, rfl⟩ := mapM_cons_eq_ok.mp h
    cases i with
    | zero =>
      obtain rfl : a' = a := by simpa using ha
      exact ⟨b, rfl, hb⟩
    | succ i => simpa using ih hbs ha

/-- A run over a list fails at the first element at which it does. -/
theorem mapM_eq_error {e : ε} (h : l.mapM f = .error e) : ∃ before a after,
    l = before ++ a :: after ∧ (∀ x ∈ before, ∃ b, f x = .ok b) ∧ f a = .error e := by
  induction l with
  | nil => cases h
  | cons a l ih =>
    cases ha : f a with
    | error e' =>
      rw [List.mapM_cons, ha] at h
      cases h
      exact ⟨[], a, l, rfl, List.forall_mem_nil _, ha⟩
    | ok b =>
      rw [List.mapM_cons, ha] at h
      cases hl : l.mapM f with
      | ok bs =>
        rw [hl] at h
        cases h
      | error e' =>
        rw [hl] at h
        cases h
        obtain ⟨before, x, after, rfl, hbefore, hx⟩ := ih hl
        exact ⟨a :: before, x, after, rfl, List.forall_mem_cons.mpr ⟨⟨b, ha⟩, hbefore⟩, hx⟩

theorem exists_mapM_eq_ok : (∃ l', l.mapM f = .ok l') ↔ ∀ a ∈ l, ∃ b, f a = .ok b := by
  constructor
  · rintro ⟨l', h⟩ a ha
    obtain ⟨i, hi⟩ := List.mem_iff_getElem?.mp ha
    obtain ⟨b, -, hb⟩ := exists_getElem?_of_mapM h hi
    exact ⟨b, hb⟩
  · intro h
    cases hl : l.mapM f with
    | ok l' => exact ⟨l', rfl⟩
    | error e =>
      obtain ⟨before, a, after, rfl, -, ha⟩ := mapM_eq_error hl
      obtain ⟨b, hb⟩ := h a (List.mem_append_right _ List.mem_cons_self)
      cases hb.symm.trans ha

theorem mem_of_mapM (h : l.mapM f = .ok l') (hb : b ∈ l') : ∃ a ∈ l, f a = .ok b := by
  obtain ⟨i, hi⟩ := List.mem_iff_getElem?.mp hb
  obtain ⟨a, ha, hf⟩ := (getElem?_of_mapM h i).mp hi
  exact ⟨a, List.mem_of_getElem? ha, hf⟩

end SdkSmith
