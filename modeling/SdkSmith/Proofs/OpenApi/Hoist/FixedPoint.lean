import SdkSmith.Proofs.OpenApi.Hoist.Normal
import SdkSmith.Proofs.OpenApi.References

/-!
When a second run changes nothing. A list of inline objects has only its items treated, so inline
objects in an allOf beside those items are still there in the normal form; nothing else is left.
-/
namespace SdkSmith.OpenApi

mutual

/-- The inline objects that a run leaves behind in what it made of a schema: those beside the items
of lists that have an allOf. -/
def Schema.overlooked (p : Place) : Schema → List Schema
  | ⟨type, reference, title, description, properties, required, items, allOf, format, nullable,
      enumValues, default, origin⟩ =>
    let s : Schema := ⟨type, reference, title, description, properties, required, items, allOf,
      format, nullable, enumValues, default, origin⟩
    match fate p s with
    | .keep | .move => []
    | .items => match items with
      | some i => overlooked .member i
      | none => []
    | .visit =>
      if p = .member ∧ s.primaryType? = some "array" then s.inside
      else (match properties with
        | some ps => overlookedOut ps
        | none => []) ++ (match items with
        | some i => overlooked .member i
        | none => []) ++ (match allOf with
        | some ss => overlookedAll ss
        | none => [])

/-- The inline objects left behind in properties. -/
def Schema.overlookedOut : List (String × Schema) → List Schema
  | [] => []
  | (_, s) :: ps => overlooked .member s ++ overlookedOut ps

/-- The inline objects left behind in the members of an allOf. -/
def Schema.overlookedAll : List Schema → List Schema
  | [] => []
  | s :: ss => overlooked .entry s ++ overlookedAll ss

end

variable {f : Signature → String} {p : Place} {s : Schema} {d d' : Document}

namespace Schema

theorem overlooked_eq : s.overlooked p = match fate p s with
    | .keep | .move => []
    | .items => s.items.elim [] (overlooked .member)
    | .visit =>
      if p = .member ∧ s.primaryType? = some "array" then s.inside
      else s.properties.elim [] overlookedOut ++ s.items.elim [] (overlooked .member) ++
        s.allOf.elim [] overlookedAll := by
  obtain ⟨_, _, _, _, properties, _, items, allOf, _⟩ := s
  rw [overlooked.eq_def]
  cases properties <;> cases items <;> cases allOf <;> rfl

theorem isInlineObject_settleInside : (s.settleInside f).isInlineObject = s.isInlineObject := by
  obtain ⟨_, _, _, _, properties, _, _, allOf, _⟩ := s
  cases properties with
  | none => cases allOf <;> rfl
  | some ps => cases ps <;> cases allOf <;> rfl

theorem isArrayOfInlineObjects_of_items (h : ∀ i, s.items = some i → i.needsName = false) :
    s.isArrayOfInlineObjects = false := by
  rw [isArrayOfInlineObjects_eq]
  cases hi : s.items with
  | none => simp
  | some i =>
    have := h i hi
    rw [needsName] at this
    simp [this]

theorem isInlineObject_of_fate (h : fate .member s ≠ .move) : s.isInlineObject = false := by
  cases hs : s.isInlineObject with
  | false => rfl
  | true => simp [fate, hs] at h

theorem isArrayOfInlineObjects_of_fate (h : fate .member s = .items) :
    s.isArrayOfInlineObjects = true := by
  have hinline := isInlineObject_of_fate (s := s) (by simp [h])
  cases hs : s.isArrayOfInlineObjects with
  | true => rfl
  | false =>
    simp only [fate, hinline, hs, Bool.false_eq_true, if_false] at h
    split at h <;> cases h

theorem fate_of_needsName (h : s.needsName = false) :
    fate .member s = if s.allOf.isSome then .visit else .keep := by
  simp only [needsName, Bool.or_eq_false_iff] at h
  simp [fate, h]

/-- A member that is settled needs no name. -/
theorem needsName_settle (s : Schema) : (s.settle f .member).needsName = false := by
  induction s using tree_induction with
  | step s properties items members =>
    have hitems {t : Schema} (ht : t.items = s.items.map (settle f .member)) :
        t.isArrayOfInlineObjects = false := by
      refine isArrayOfInlineObjects_of_items fun i hi => ?_
      rw [ht] at hi
      obtain ⟨j, hj, rfl⟩ := Option.map_eq_some_iff.mp hi
      exact items j hj
    rw [settle_eq, needsName, Bool.or_eq_false_iff]
    cases hf : fate .member s with
    | keep =>
      refine ⟨isInlineObject_of_fate (by simp [hf]), ?_⟩
      cases hs : s.isArrayOfInlineObjects with
      | false => rfl
      | true => simp [fate, hs, isInlineObject_of_fate (s := s) (by simp [hf])] at hf
    | move =>
      refine ⟨rfl, isArrayOfInlineObjects_of_items ?_⟩
      rintro i ⟨⟩
    | items =>
      have hinline := isInlineObject_of_fate (s := s) (by simp [hf])
      exact ⟨hinline, hitems rfl⟩
    | visit =>
      refine ⟨?_, hitems rfl⟩
      rw [isInlineObject_settleInside]
      exact isInlineObject_of_fate (by simp [hf])

/-- What has an allOf when it is settled is a list of inline objects, or was visited. -/
theorem fate_of_allOf_settle (h : (s.settle f .member).allOf.isSome = true) :
    fate .member s = .items ∨ fate .member s = .visit := by
  rw [settle_eq] at h
  cases hf : fate .member s with
  | keep =>
    simp only [hf] at h
    simp only [fate, h, if_true] at hf
    split at hf
    · cases hf
    · split at hf <;> cases hf
  | move =>
    simp only [hf] at h
    cases h
  | items => exact Or.inl rfl
  | visit => exact Or.inr rfl

theorem movedOut_settleOut {ps : List (String × Schema)} (h : ∀ p ∈ ps,
    (p.2.settle f .member).moved .member = (p.2.settle f .member).overlooked .member) :
    movedOut (settleOut f ps) = overlookedOut (settleOut f ps) := by
  induction ps with
  | nil => rfl
  | cons p ps ih =>
    rw [settleOut, movedOut, overlookedOut, h p List.mem_cons_self,
      ih fun q hq => h q (List.mem_cons_of_mem _ hq)]

theorem movedAll_settleAll {ss : List Schema} (h : ∀ s ∈ ss,
    (s.settle f .entry).moved .entry = (s.settle f .entry).overlooked .entry) :
    movedAll (settleAll f ss) = overlookedAll (settleAll f ss) := by
  induction ss with
  | nil => rfl
  | cons s ss ih =>
    rw [settleAll, movedAll, overlookedAll, h s List.mem_cons_self,
      ih fun x hx => h x (List.mem_cons_of_mem _ hx)]

/-- What still moves out of a settled schema was overlooked. -/
theorem moved_settle (s : Schema) (p : Place) :
    (s.settle f p).moved p = (s.settle f p).overlooked p := by
  induction s using tree_induction generalizing p with
  | step s properties items members =>
    have hinside : (s.settleInside f).inside =
        (s.settleInside f).properties.elim [] overlookedOut ++
          (s.settleInside f).items.elim [] (overlooked .member) ++
          (s.settleInside f).allOf.elim [] overlookedAll := by
      simp only [inside, settleInside]
      congr 1
      · congr 1
        · cases hps : s.properties with
          | none => rfl
          | some ps => exact movedOut_settleOut fun p hp => properties ps hps p hp .member
        · cases hi : s.items with
          | none => rfl
          | some i => exact items i hi .member
      · cases hss : s.allOf with
        | none => rfl
        | some ss => exact movedAll_settleAll fun x hx => members ss hss x hx .entry
    cases p with
    | entry =>
      rw [settle_entry, moved_entry, overlooked_eq, hinside]
      rfl
    | member =>
      have hfate := fate_of_needsName (needsName_settle (f := f) s)
      rw [moved_eq, overlooked_eq]
      cases hall : (s.settle f .member).allOf.isSome with
      | false => simp [hfate, hall]
      | true =>
        simp only [hfate, hall, if_true, true_and]
        split
        · rfl
        · rename_i harray
          rw [settle_eq] at harray ⊢
          rcases fate_of_allOf_settle hall with hf | hf
          · rw [hf] at harray
            have hlist := primaryType?_of_list (isArrayOfInlineObjects_of_fate (s := s) hf)
            exact (harray hlist).elim
          · rw [hf]
            exact hinside

end Schema

namespace Document

/-- A document is hoisted already if no body needs a name and nothing moves out of an entry. -/
theorem hoist_eq_self (hk : (Table.keys d.components.schemas).Nodup) : d.hoist = .ok d ↔
    (∀ s ∈ d.bodies, s.needsName = false) ∧ movedEntries d.components.schemas = [] := by
  constructor
  · intro hd
    obtain ⟨h, hadds, heq⟩ := hoist_settles hk hd
    have hbodies : d.bodies.map (settleBody h.entryOf) = d.bodies := by
      rw [← bodies_settle (t := h.table), ← heq]
    have htable : settleEntries h.entryOf h.table = d.components.schemas :=
      (congrArg (·.components.schemas) heq).symm
    obtain ⟨new, hnew, -⟩ := Hoard.Adds.appends hadds
    have hsrc : h.table = d.components.schemas := by
      have hlength := congrArg List.length htable
      rw [settleEntries, List.length_map, hnew, List.length_append] at hlength
      have : new = [] := List.length_eq_zero_iff.mp (Nat.add_eq_left.mp hlength)
      rw [hnew, this, List.append_nil]
      rfl
    rw [hsrc] at htable
    exact ⟨fun s hs => settleBody_eq_self.mp (map_eq_self.mp hbodies s hs),
      settleEntries_eq_self.mp htable⟩
  · rintro ⟨hbodies, hmoved⟩
    have hpaths := hoistPaths?_settles d
    have hnone : d.bodies.filter (·.needsName) = [] :=
      List.filter_eq_nil_iff.mpr fun s hs => by simp [hbodies s hs]
    let h := Hoard.ofTable d.components.schemas
    obtain ⟨paths, hrun⟩ := hpaths.idle hnone h
    refine hoist_eq_ok.mpr ⟨paths, h, h, hrun, hoistEntries_idle hk hmoved, ?_⟩
    rw [hpaths.result hrun h.agrees_entryOf]
    calc d = d.settle h.entryOf d.components.schemas := (d.settle_self hbodies hmoved).symm
      _ = _ := by
        rw [settle, settleEntries_eq_self.mpr hmoved]
        rfl

/-- A second run changes nothing exactly if the first one overlooked nothing. -/
theorem normalize_again (hk : (Table.keys d.components.schemas).Nodup) (hd : d.normalize = .ok d') :
    d'.normalize = .ok d' ↔ ∀ p ∈ d'.components.schemas, p.2.overlooked .entry = [] := by
  obtain ⟨hhoist, hcheck⟩ := normalize_eq_ok.mp hd
  obtain ⟨h, hadds, rfl⟩ := hoist_settles hk hhoist
  have hk' : (Table.keys (settleEntries h.entryOf h.table)).Nodup := by
    rw [keys_settleEntries]
    exact Hoard.Adds.nodup hadds hk
  have hbodies : ∀ s ∈ (d.settle h.entryOf h.table).bodies, s.needsName = false := by
    rw [bodies_settle]
    intro s hs
    obtain ⟨b, -, rfl⟩ := List.mem_map.mp hs
    exact needsName_settleBody _ b
  have hmoved : movedEntries (settleEntries h.entryOf h.table) = [] ↔
      ∀ p ∈ settleEntries h.entryOf h.table, p.2.overlooked .entry = [] := by
    rw [movedEntries, List.flatMap_eq_nil_iff]
    refine forall₂_congr fun p hp => ?_
    obtain ⟨q, -, rfl⟩ := List.mem_map.mp hp
    rw [q.2.moved_settle .entry]
  rw [normalize_eq_ok, hoist_eq_self hk']
  exact ⟨fun h => hmoved.mp h.1.2, fun h => ⟨⟨hbodies, hmoved.mpr h⟩, hcheck⟩⟩

/-- An entry with a property that has an object in it, and lists of objects. -/
def nestedLists : Document :=
  posting [("Shop", .objectOf [("shelf", .objectOf [("rows", .arrayOf (.objectOf [("label",
    .text)]))])])] (.arrayOf (.objectOf [("shop", .refTo "Shop")]))

theorem normalize_nestedLists_again : (Table.keys nestedLists.components.schemas).Nodup ∧
    ∃ d', nestedLists.normalize = .ok d' ∧ Table.keys d'.components.schemas =
      ["Shop", "CreateRequest", "ShopShelf", "CreateRequestItem", "ShopShelfRow"] ∧
      d'.normalize = .ok d' := by
  have hk : (Table.keys nestedLists.components.schemas).Nodup := by decide
  have h : nestedLists.normalize.toOption.map (fun d' => (Table.keys d'.components.schemas,
      d'.components.schemas.all fun p => (p.2.overlooked .entry).isEmpty)) =
      some (["Shop", "CreateRequest", "ShopShelf", "CreateRequestItem", "ShopShelfRow"],
        true) := by decide +kernel
  obtain ⟨d', hd, hp⟩ := toOption_map_eq_some.mp h
  obtain ⟨hkeys, hall⟩ := Prod.mk.inj hp
  refine ⟨hk, d', hd, hkeys, (normalize_again hk hd).mpr fun p hmem => ?_⟩
  exact List.isEmpty_iff.mp (List.all_eq_true.mp hall p hmem)

/-- A list of objects with an allOf beside its items. -/
def besideItems : Document :=
  posting [("List", .objectOf [("rows", { Schema.arrayOf (.objectOf [("a", .text)]) with
    allOf := some [.objectOf [("x", .objectOf [("y", .text)])]] })])] .text

/-- The object in the allOf gets its entry from the second run only. -/
theorem normalize_besideItems : ¬ ∀ d d' : Document, (Table.keys d.components.schemas).Nodup →
    d.normalize = .ok d' → d'.normalize = .ok d' := by
  intro hall
  have h : besideItems.normalize.toOption.map (fun d' => (Table.keys d'.components.schemas,
      d'.normalize.toOption.map fun d'' => Table.keys d''.components.schemas)) =
      some (["List", "ListRow"], some ["List", "ListRow", "ListRowsX"]) := by decide +kernel
  obtain ⟨d', hd, hp⟩ := toOption_map_eq_some.mp h
  obtain ⟨hkeys, hagain⟩ := Prod.mk.inj hp
  rw [hall _ d' (by decide) hd] at hagain
  simp [Except.toOption, hkeys] at hagain

end Document
end SdkSmith.OpenApi
