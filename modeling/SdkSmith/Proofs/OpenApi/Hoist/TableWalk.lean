import SdkSmith.Proofs.OpenApi.Hoist.Normal

/-!
The walk of the table without a bound. It goes on as long as the table has an entry that it has not
visited, and each visit may add some. It ends all the same: what an entry adds is smaller than the
entry, whatever the entries refer to, so the size of what is left goes down with every visit.
-/
namespace SdkSmith.OpenApi

/-- A walk of the table from an index on: the entries that it visits, and how it ends. -/
inductive Walk : Nat → Hoard → List String → Except Failure Hoard → Prop
  /-- There is no entry left. -/
  | stop {i : Nat} {h : Hoard} (hi : h.table[i]? = none) : Walk i h [] (.ok h)
  /-- An entry has something in it that cannot be named. -/
  | fail {i : Nat} {h : Hoard} {p : String × Schema} {e : Failure} (hp : h.table[i]? = some p)
      (hhoist : (hoist p.2.origin (.entry p.1) p.2).run h = .error e) : Walk i h [p.1] (.error e)
  /-- An entry is hoisted and stored in its place. -/
  | step {i : Nat} {h h' : Hoard} {p : String × Schema} {s : Schema} {visited : List String}
      {r : Except Failure Hoard} (hp : h.table[i]? = some p)
      (hhoist : (hoist p.2.origin (.entry p.1) p.2).run h = .ok (s, h'))
      (rest : Walk (i + 1) ⟨Table.put p.1 s h'.table, h'.known⟩ visited r) :
      Walk i h (p.1 :: visited) r

/-- Hoisting without a bound: the entries that the walk of the table visits, and what comes out. -/
inductive Document.Hoists (d : Document) : List String → Except Failure Document → Prop
  /-- A body cannot be named. -/
  | fail {e : Failure}
      (hbodies : (d.paths.mapM hoistPaths).run (Hoard.ofTable d.components.schemas) = .error e) :
      Hoists d [] (.error e)
  /-- The table is walked, with what the bodies added to it. -/
  | walk {paths : Option (Table PathItem)} {h : Hoard} {visited : List String}
      {r : Except Failure Hoard}
      (hbodies : (d.paths.mapM hoistPaths).run (Hoard.ofTable d.components.schemas) =
        .ok (paths, h))
      (hwalk : Walk 0 h visited r) :
      Hoists d visited (r.map fun h' => d.withTable paths h'.table)

variable {fuel i : Nat} {h h' : Hoard} {t : Table Schema}
  {visited visited' : List String} {r r' : Except Failure Hoard} {d d' : Document}

/-! Walks -/

/-- There is only one walk from a state. -/
theorem Walk.unique (hwalk : Walk i h visited r) (hwalk' : Walk i h visited' r') :
    visited' = visited ∧ r' = r := by
  induction hwalk generalizing visited' r' with
  | stop hi =>
    cases hwalk' with
    | stop => exact ⟨rfl, rfl⟩
    | fail hp => simp [hi] at hp
    | step hp => simp [hi] at hp
  | fail hp hhoist =>
    cases hwalk' with
    | stop hi => simp [hi] at hp
    | fail hp' hhoist' =>
      cases hp.symm.trans hp'
      cases hhoist.symm.trans hhoist'
      exact ⟨rfl, rfl⟩
    | step hp' hhoist' =>
      cases hp.symm.trans hp'
      cases hhoist.symm.trans hhoist'
  | step hp hhoist rest ih =>
    cases hwalk' with
    | stop hi => simp [hi] at hp
    | fail hp' hhoist' =>
      cases hp.symm.trans hp'
      cases hhoist.symm.trans hhoist'
    | step hp' hhoist' rest' =>
      cases hp.symm.trans hp'
      cases hhoist.symm.trans hhoist'
      obtain ⟨rfl, rfl⟩ := ih rest'
      exact ⟨rfl, rfl⟩

/-- With fuel for what is left, the walk from an index on is the one without a bound. At the end all
entries have been visited. -/
theorem walk_hoistEntries (known : List (Signature × String)) (done todo : Table Schema)
    (hk : (Table.keys (done ++ todo)).Nodup) (hfuel : Schema.sizeProperties todo < fuel) :
    ∃ visited,
      Walk done.length ⟨done ++ todo, known⟩ visited
        (((hoistEntries fuel done.length).run ⟨done ++ todo, known⟩).map (·.2)) ∧
      ∀ h', (hoistEntries fuel done.length).run ⟨done ++ todo, known⟩ = .ok ((), h') →
        Table.keys h'.table = Table.keys done ++ visited := by
  induction fuel generalizing done todo known with
  | zero => omega
  | succ fuel ih =>
    cases todo with
    | nil =>
      have hi : (done ++ [])[done.length]? = none := by simp
      refine ⟨[], ?_, fun h' hrun => ?_⟩
      · rw [hoistEntries_stop hi]
        exact .stop hi
      · rw [hoistEntries_stop hi] at hrun
        cases hrun
        simp
    | cons p todo =>
      have hp : (done ++ p :: todo)[done.length]? = some p := by simp
      rw [run_hoistEntries fuel hp]
      cases hhoist : (hoist p.2.origin (.entry p.1) p.2).run ⟨done ++ p :: todo, known⟩ with
      | error e =>
        refine ⟨[p.1], .fail hp hhoist, ?_⟩
        rintro h' ⟨⟩
      | ok x =>
        obtain ⟨s, h₁⟩ := x
        obtain ⟨new, -, hput, hk₁, hless⟩ := hoist_entry hk hhoist
        obtain ⟨visited, hwalk, hkeys⟩ := ih h₁.known (done ++ [(p.1, s)]) (todo ++ new)
          hk₁ (by omega)
        rw [← hput, List.length_append, List.length_singleton] at hwalk hkeys
        refine ⟨p.1 :: visited, .step hp hhoist hwalk, fun h' hrun => ?_⟩
        rw [hkeys h' hrun]
        simp

theorem walk_hoistTable (hk : (Table.keys h.table).Nodup) :
    ∃ visited, Walk 0 h visited ((hoistTable.run h).map (·.2)) ∧
      ∀ h', hoistTable.run h = .ok ((), h') → Table.keys h'.table = visited := by
  have hrun : hoistTable.run h = (hoistEntries (Schema.sizeProperties h.table + 1) 0).run h := rfl
  rw [hrun]
  exact walk_hoistEntries h.known [] h.table hk (Nat.lt_succ_self _)

/-! Documents -/

theorem Document.Hoists.unique {r r' : Except Failure Document} (hrun : d.Hoists visited r)
    (hrun' : d.Hoists visited' r') : visited' = visited ∧ r' = r := by
  cases hrun with
  | fail hbodies =>
    cases hrun' with
    | fail hbodies' =>
      cases hbodies.symm.trans hbodies'
      exact ⟨rfl, rfl⟩
    | walk hbodies' => cases hbodies.symm.trans hbodies'
  | walk hbodies hwalk =>
    cases hrun' with
    | fail hbodies' => cases hbodies.symm.trans hbodies'
    | walk hbodies' hwalk' =>
      cases hbodies.symm.trans hbodies'
      obtain ⟨rfl, rfl⟩ := hwalk.unique hwalk'
      exact ⟨rfl, rfl⟩

/-- Hoisting is a run without a bound, which visits all entries. -/
theorem Document.hoists_hoist (hk : (Table.keys d.components.schemas).Nodup) :
    ∃ visited, d.Hoists visited d.hoist ∧
      ∀ d', d.hoist = .ok d' → Table.keys d'.components.schemas = visited := by
  rw [hoist_eq]
  cases hbodies : (d.paths.mapM hoistPaths).run (Hoard.ofTable d.components.schemas) with
  | error e => exact ⟨[], .fail hbodies, fun d' h => by cases h⟩
  | ok x =>
    obtain ⟨paths, h⟩ := x
    have hk' := ((hoistPaths?_settles d).adds hbodies).nodup hk
    obtain ⟨visited, hwalk, hkeys⟩ := walk_hoistTable hk'
    refine ⟨visited, .walk hbodies hwalk, fun d' hd => ?_⟩
    obtain ⟨h', hh, rfl⟩ := map_eq_ok.mp hd
    obtain ⟨y, hy, rfl⟩ := map_eq_ok.mp hh
    exact hkeys y.2 hy

end SdkSmith.OpenApi
