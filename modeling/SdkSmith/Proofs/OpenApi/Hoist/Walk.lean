import SdkSmith.Proofs.OpenApi.Hoist.Hoisting

/-!
The walk of the table. It reaches every entry, those that are added on the way among them, and
settles each: what it ends with is the table of all sources, entry by entry settled.
-/
namespace SdkSmith.OpenApi

/-- The inline objects that move out of the entries of a table. -/
def movedEntries (t : Table Schema) : List Schema :=
  t.flatMap fun p => p.2.moved .entry

/-- A table with every entry settled. -/
def settleEntries (f : Signature → String) (t : Table Schema) : Table Schema :=
  t.map fun p => (p.1, p.2.settle f .entry)

variable {f : Signature → String} {t : Table Schema} {h h' : Hoard} {fuel i : Nat}
  {name : String} {s : Schema} {known : List (Signature × String)} {p : String × Schema}

@[simp] theorem keys_settleEntries : Table.keys (settleEntries f t) = Table.keys t := by
  simp [settleEntries, Table.keys]

theorem find?_settleEntries :
    Table.find? name (settleEntries f t) = (Table.find? name t).map (Schema.settle f .entry) := by
  induction t with
  | nil => rfl
  | cons p t ih =>
    simp only [settleEntries, List.map_cons, Table.find?] at ih ⊢
    split
    · rfl
    · exact ih

theorem settleEntries_eq_self : settleEntries f t = t ↔ movedEntries t = [] := by
  rw [settleEntries, movedEntries, map_eq_self, List.flatMap_eq_nil_iff]
  refine forall₂_congr fun p _ => ?_
  rw [← Schema.settle_eq_self p.2 .entry (f := f)]
  simp [Prod.ext_iff]

/-- One step of the walk: it hoists the entry, stores it in its place and goes on. -/
theorem run_hoistEntries (fuel : Nat) (hp : h.table[i]? = some p) :
    (hoistEntries (fuel + 1) i).run h =
      (hoist p.2.origin (.entry p.1) p.2).run h >>= fun x =>
        (hoistEntries fuel (i + 1)).run ⟨Table.put p.1 x.1 x.2.table, x.2.known⟩ := by
  have hstep : (hoistEntries (fuel + 1) i).run h = (do
      let s ← hoist p.2.origin (.entry p.1) p.2
      modify fun h : Hoard => ⟨Table.put p.1 s h.table, h.known⟩
      hoistEntries fuel (i + 1)).run h := by
    rw [hoistEntries]
    simp [hp]
  rw [hstep, StateT.run_bind]
  rfl

theorem hoistEntries_step (hp : h.table[i]? = some p) :
    (hoistEntries (fuel + 1) i).run h = .ok ((), h') ↔
      ∃ (s : Schema) (h₁ : Hoard), (hoist p.2.origin (.entry p.1) p.2).run h = .ok (s, h₁) ∧
        (hoistEntries fuel (i + 1)).run ⟨Table.put p.1 s h₁.table, h₁.known⟩ = .ok ((), h') := by
  rw [run_hoistEntries fuel hp, bind_eq_ok, Prod.exists]

theorem hoistEntries_stop (hi : h.table[i]? = none) :
    (hoistEntries fuel i).run h = .ok ((), h) := by
  cases fuel with
  | zero => rfl
  | succ fuel =>
    rw [hoistEntries]
    simp [hi]
    rfl

/-- A step of the walk may add entries at the end, but what is left is less than it was. -/
theorem hoist_entry {done todo : Table Schema} (hk : (Table.keys (done ++ p :: todo)).Nodup)
    (hrun : (hoist p.2.origin (.entry p.1) p.2).run ⟨done ++ p :: todo, known⟩ = .ok (s, h)) :
    ∃ new, h.table = done ++ p :: todo ++ new ∧
      Table.put p.1 s h.table = (done ++ [(p.1, s)]) ++ (todo ++ new) ∧
      (Table.keys ((done ++ [(p.1, s)]) ++ (todo ++ new))).Nodup ∧
      Schema.sizeProperties (todo ++ new) < Schema.sizeProperties (p :: todo) := by
  have hadds := (hoist_settles (o := p.2.origin) (.entry p.1) p.2).adds hrun
  obtain ⟨new, htable : h.table = _, -, hsize, -⟩ := hadds.appends
  have hk' := hadds.nodup hk
  have hp : p.1 ∉ Table.keys done := by
    rw [Table.keys_append, List.nodup_append] at hk
    exact fun hmem => hk.2.2 _ hmem _ List.mem_cons_self rfl
  refine ⟨new, htable, ?_, ?_, ?_⟩
  · rw [htable]
    simpa using Table.put_append_cons s p.2 (todo ++ new) hp
  · rw [htable] at hk'
    simpa using hk'
  · have hmoved := p.2.size_moved.1
    rw [← Schema.moved_entry] at hmoved
    simp only [Position.place, Schema.sizeProperties, Schema.sizeProperties_append] at *
    omega

/-- The walk from an index on, with fuel for what is left of the table. -/
theorem hoistEntries_settles (done todo : Table Schema) (hk : (Table.keys (done ++ todo)).Nodup)
    (hfuel : Schema.sizeProperties todo < fuel)
    (hrun : (hoistEntries fuel done.length).run ⟨done ++ todo, known⟩ = .ok ((), h')) :
    ∃ src, Hoard.Adds ⟨done ++ todo, known⟩ (movedEntries src) ⟨done ++ src, h'.known⟩ ∧
      ∀ f, h'.Agrees f → h'.table = done ++ settleEntries f src := by
  induction fuel generalizing done todo known with
  | zero => omega
  | succ fuel ih =>
    cases todo with
    | nil =>
      rw [hoistEntries_stop (by simp)] at hrun
      cases hrun
      exact ⟨[], .nil, fun f _ => rfl⟩
    | cons p todo =>
      obtain ⟨s, ⟨table, known₁⟩, hhoist, hrest⟩ := (hoistEntries_step (p := p) (by simp)).mp hrun
      have hsettles := hoist_settles (o := p.2.origin) (.entry p.1) p.2
      have hadds := hsettles.adds hhoist
      obtain ⟨new, rfl : table = _, hput, hk₁, hless⟩ := hoist_entry hk hhoist
      rw [hput] at hrest
      obtain ⟨src, hadds', htable⟩ := ih (done ++ [(p.1, s)]) (todo ++ new) hk₁ (by omega)
        (by simpa using hrest)
      have hrepl : Hoard.Adds ⟨done ++ p :: todo ++ new, known₁⟩ (movedEntries src)
          ⟨done ++ p :: src, h'.known⟩ := by
        simp only [List.append_assoc, List.cons_append] at hadds' ⊢
        exact hadds'.replace rfl
      refine ⟨p :: src, hadds.append hrepl, fun f hf => ?_⟩
      have hs := hsettles.result hhoist (hrepl.agrees hf)
      rw [htable f hf, hs]
      simp [settleEntries, Position.place]

/-- The walk of a table settles all of it, and what it adds. -/
theorem hoistTable_settles (hk : (Table.keys h.table).Nodup)
    (hrun : hoistTable.run h = .ok ((), h')) :
    ∃ src, h.Adds (movedEntries src) ⟨src, h'.known⟩ ∧
      ∀ f, h'.Agrees f → h'.table = settleEntries f src := by
  have hwalk : (hoistEntries (Schema.sizeProperties h.table + 1) 0).run h = .ok ((), h') := hrun
  have := hoistEntries_settles [] h.table hk (Nat.lt_succ_self _) hwalk
  simpa using this

/-- The walk leaves a table as it is from which nothing moves. -/
theorem hoistEntries_idle (hk : (Table.keys h.table).Nodup) (hm : movedEntries h.table = []) :
    (hoistEntries fuel i).run h = .ok ((), h) := by
  induction fuel generalizing i with
  | zero => rfl
  | succ fuel ih =>
    cases hp : h.table[i]? with
    | none => exact hoistEntries_stop hp
    | some p =>
      have hmem := List.mem_of_getElem? hp
      have hmoved := List.flatMap_eq_nil_iff.mp hm p hmem
      have hsettles := hoist_settles (o := p.2.origin) (.entry p.1) p.2
      obtain ⟨s, hs⟩ := hsettles.idle hmoved h
      obtain rfl : s = p.2 := (hsettles.result hs h.agrees_entryOf).trans
        ((Schema.settle_eq_self p.2 .entry).mpr hmoved)
      refine (hoistEntries_step hp).mpr ⟨p.2, h, hs, ?_⟩
      rw [Table.put_of_find? (Table.find?_of_mem hk hmem)]
      exact ih

end SdkSmith.OpenApi
