import SdkSmith.Proofs.OpenApi.Hoist.SchemaTree

/-!
What hoisting does to a schema, given the entry of each signature. Whether a schema moves depends
on where it stands and on what it is, and not on the words for its name or on the table.
-/
namespace SdkSmith.OpenApi

/-- A position without the words for a name. -/
inductive Place
  | entry
  | member
deriving DecidableEq, Repr

/-- A treatment without the words for a name. -/
inductive Fate
  | keep
  | move
  | items
  | visit
deriving DecidableEq, Repr

/-- The place of a position. -/
def Position.place : Position → Place
  | .entry _ => .entry
  | .member _ _ => .member

/-- The fate that a treatment is. -/
def Treatment.fate : Treatment → Fate
  | .keep => .keep
  | .move _ => .move
  | .items _ => .items
  | .visit _ => .visit

/-- What becomes of a schema in a place, if it can be named. -/
def fate : Place → Schema → Fate
  | .entry, _ => .visit
  | .member, s =>
    if s.isInlineObject then .move
    else if s.isArrayOfInlineObjects then .items
    else if s.allOf.isSome then .visit
    else .keep

mutual

/-- The inline objects that move out of a schema, in order. -/
def Schema.moved (p : Place) : Schema → List Schema
  | ⟨type, reference, title, description, properties, required, items, allOf, format, nullable,
      enumValues, default, origin⟩ =>
    let s : Schema := ⟨type, reference, title, description, properties, required, items, allOf,
      format, nullable, enumValues, default, origin⟩
    match fate p s with
    | .keep => []
    | .move => [s]
    | .items => match items with
      | some i => moved .member i
      | none => []
    | .visit => (match properties with
      | some ps => movedOut ps
      | none => []) ++ (match items with
      | some i => moved .member i
      | none => []) ++ (match allOf with
      | some ss => movedAll ss
      | none => [])

/-- The inline objects that move out of properties. -/
def Schema.movedOut : List (String × Schema) → List Schema
  | [] => []
  | (_, s) :: ps => moved .member s ++ movedOut ps

/-- The inline objects that move out of the members of an allOf. -/
def Schema.movedAll : List Schema → List Schema
  | [] => []
  | s :: ss => moved .entry s ++ movedAll ss

end

mutual

/-- A schema with references in the place of the inline objects that move out of it. -/
def Schema.settle (f : Signature → String) (p : Place) : Schema → Schema
  | ⟨type, reference, title, description, properties, required, items, allOf, format, nullable,
      enumValues, default, origin⟩ =>
    let s : Schema := ⟨type, reference, title, description, properties, required, items, allOf,
      format, nullable, enumValues, default, origin⟩
    match fate p s with
    | .keep => s
    | .move => standIn s (f s.signature)
    | .items => { s with items := match items with
      | some i => some (settle f .member i)
      | none => none }
    | .visit => { s with
      properties := match properties with
        | some ps => some (settleOut f ps)
        | none => none
      items := match items with
        | some i => some (settle f .member i)
        | none => none
      allOf := match allOf with
        | some ss => some (settleAll f ss)
        | none => none }

/-- Properties with references in the place of the inline objects that move out of them. -/
def Schema.settleOut (f : Signature → String) : List (String × Schema) → List (String × Schema)
  | [] => []
  | (name, s) :: ps => (name, settle f .member s) :: settleOut f ps

/-- The members of an allOf with references in the place of what moves out of them. -/
def Schema.settleAll (f : Signature → String) : List Schema → List Schema
  | [] => []
  | s :: ss => settle f .entry s :: settleAll f ss

end

variable {f : Signature → String} {p : Place} {q : Position} {s : Schema} {t : Treatment}

theorem map_eq_self {α : Type} {g : α → α} {l : List α} : l.map g = l ↔ ∀ a ∈ l, g a = a := by
  conv => lhs; rhs; rw [← List.map_id l]
  exact List.map_inj_left

theorem fate_of_treatment (h : treatment q s = .ok t) : fate q.place s = t.fate := by
  cases q with
  | entry owner =>
    cases h
    rfl
  | member hint itemHint =>
    simp only [Position.place, fate]
    dsimp only [treatment] at h
    split at h
    · split at h
      · cases h
      · cases h
        rw [if_pos ‹_›]
        rfl
    · rw [if_neg ‹_›]
      split at h
      · cases h
        rw [if_pos ‹_›]
        rfl
      · rw [if_neg ‹_›]
        split at h
        · cases h
          rw [if_pos ‹_›]
          rfl
        · cases h
          rw [if_neg ‹_›]
          rfl

theorem treatment_of_fate (h : fate q.place s ≠ .move) : ∃ t, treatment q s = .ok t := by
  unfold treatment
  cases q with
  | entry owner => exact ⟨_, rfl⟩
  | member hint itemHint =>
    have hinline : s.isInlineObject ≠ true := by
      intro hi
      simp [Position.place, fate, hi] at h
    simp only [if_neg hinline]
    split
    · exact ⟨_, rfl⟩
    · split <;> exact ⟨_, rfl⟩

namespace Schema

theorem movedOut_eq (ps : List (String × Schema)) :
    movedOut ps = ps.flatMap (·.2.moved .member) := by
  induction ps with
  | nil => rfl
  | cons p ps ih => rw [movedOut, ih, List.flatMap_cons]

theorem movedAll_eq (ss : List Schema) : movedAll ss = ss.flatMap (moved .entry) := by
  induction ss with
  | nil => rfl
  | cons s ss ih => rw [movedAll, ih, List.flatMap_cons]

theorem settleOut_eq (ps : List (String × Schema)) :
    settleOut f ps = ps.map fun p => (p.1, p.2.settle f .member) := by
  induction ps with
  | nil => rfl
  | cons p ps ih => rw [settleOut, ih, List.map_cons]

theorem settleAll_eq (ss : List Schema) : settleAll f ss = ss.map (settle f .entry) := by
  induction ss with
  | nil => rfl
  | cons s ss ih => rw [settleAll, ih, List.map_cons]

/-- The inline objects that move out of the parts of a schema. -/
def inside (s : Schema) : List Schema :=
  s.properties.elim [] movedOut ++ s.items.elim [] (moved .member) ++ s.allOf.elim [] movedAll

/-- A schema whose parts are settled. -/
def settleInside (f : Signature → String) (s : Schema) : Schema :=
  { s with
    properties := s.properties.map (settleOut f)
    items := s.items.map (settle f .member)
    allOf := s.allOf.map (settleAll f) }

theorem moved_eq : s.moved p = match fate p s with
    | .keep => []
    | .move => [s]
    | .items => s.items.elim [] (moved .member)
    | .visit => s.inside := by
  obtain ⟨_, _, _, _, properties, _, items, allOf, _⟩ := s
  rw [moved.eq_def]
  cases properties <;> cases items <;> cases allOf <;> rfl

theorem settle_eq : s.settle f p = match fate p s with
    | .keep => s
    | .move => standIn s (f s.signature)
    | .items => { s with items := s.items.map (settle f .member) }
    | .visit => s.settleInside f := by
  obtain ⟨_, _, _, _, properties, _, items, allOf, _⟩ := s
  rw [settle.eq_def]
  cases properties <;> cases items <;> cases allOf <;> rfl

theorem moved_entry : s.moved .entry = s.inside := by
  rw [moved_eq]
  rfl

theorem settle_entry : s.settle f .entry = s.settleInside f := by
  rw [settle_eq]
  rfl

theorem ne_move_of_moved (h : s.moved p = []) : fate p s ≠ .move := by
  intro hm
  rw [moved_eq, hm] at h
  cases h

theorem fate_eq_move (h : fate p s = .move) : s.isInlineObject = true := by
  cases p with
  | entry => cases h
  | member =>
    simp only [fate] at h
    split at h
    · assumption
    · split at h
      · cases h
      · split at h <;> cases h

theorem isInlineObject_of_moved {x : Schema} (hx : x ∈ s.moved p) : x.isInlineObject = true := by
  induction s using tree_induction generalizing p with
  | step s properties items members =>
    rw [moved_eq] at hx
    cases hf : fate p s with
    | keep => simp [hf] at hx
    | move =>
      simp only [hf, List.mem_singleton] at hx
      exact hx ▸ fate_eq_move hf
    | items =>
      cases hi : s.items with
      | none => simp [hf, hi] at hx
      | some i =>
        simp only [hf, hi] at hx
        exact items i hi hx
    | visit =>
      simp only [hf, inside, List.mem_append] at hx
      rcases hx with (hx | hx) | hx
      · cases hps : s.properties with
        | none => simp [hps] at hx
        | some ps =>
          rw [hps, Option.elim_some, movedOut_eq] at hx
          obtain ⟨q, hq, hx⟩ := List.mem_flatMap.mp hx
          exact properties ps hps q hq hx
      · cases hi : s.items with
        | none => simp [hi] at hx
        | some i =>
          rw [hi] at hx
          exact items i hi hx
      · cases hss : s.allOf with
        | none => simp [hss] at hx
        | some ss =>
          rw [hss, Option.elim_some, movedAll_eq] at hx
          obtain ⟨y, hy, hx⟩ := List.mem_flatMap.mp hx
          exact members ss hss y hy hx

theorem standIn_ne (h : s.isInlineObject = true) (name : String) : standIn s name ≠ s := by
  intro heq
  have href := congrArg Schema.reference heq
  simp only [isInlineObject, Bool.and_eq_true, Option.isNone_iff_eq_none] at h
  rw [h.1.1] at href
  cases href

theorem settleInside_eq_self : s.settleInside f = s ↔
    s.properties.map (settleOut f) = s.properties ∧ s.items.map (settle f .member) = s.items ∧
      s.allOf.map (settleAll f) = s.allOf := by
  cases s
  simp [settleInside]

theorem settleOut_eq_self {ps : List (String × Schema)}
    (h : ∀ p ∈ ps, p.2.settle f .member = p.2 ↔ p.2.moved .member = []) :
    settleOut f ps = ps ↔ movedOut ps = [] := by
  rw [settleOut_eq, movedOut_eq, map_eq_self, List.flatMap_eq_nil_iff]
  refine forall₂_congr fun p hp => ?_
  rw [← h p hp]
  simp [Prod.ext_iff]

theorem settleAll_eq_self {ss : List Schema}
    (h : ∀ s ∈ ss, s.settle f .entry = s ↔ s.moved .entry = []) :
    settleAll f ss = ss ↔ movedAll ss = [] := by
  rw [settleAll_eq, movedAll_eq, map_eq_self, List.flatMap_eq_nil_iff]
  exact forall₂_congr h

/-- A schema is settled when nothing moves out of it. -/
theorem settle_eq_self (s : Schema) (p : Place) : s.settle f p = s ↔ s.moved p = [] := by
  induction s using tree_induction generalizing p with
  | step s properties items members =>
    have hps : s.properties.map (settleOut f) = s.properties ↔
        s.properties.elim [] movedOut = [] := by
      cases hps : s.properties with
      | none => simp
      | some ps =>
        simpa using settleOut_eq_self fun p hp => properties ps hps p hp .member
    have hi : s.items.map (settle f .member) = s.items ↔ s.items.elim [] (moved .member) = [] := by
      cases hi : s.items with
      | none => simp
      | some i => simpa using items i hi .member
    have hss : s.allOf.map (settleAll f) = s.allOf ↔ s.allOf.elim [] movedAll = [] := by
      cases hss : s.allOf with
      | none => simp
      | some ss => simpa using settleAll_eq_self fun x hx => members ss hss x hx .entry
    rw [settle_eq, moved_eq]
    cases hf : fate p s with
    | keep => simp
    | move => simpa using standIn_ne (fate_eq_move hf) _
    | items =>
      rw [← hi]
      cases s
      simp
    | visit =>
      simp only [settleInside_eq_self, hps, hi, hss, inside, List.append_eq_nil_iff, and_assoc]

theorem sizeAll_append (ss ss' : List Schema) : sizeAll (ss ++ ss') = sizeAll ss + sizeAll ss' := by
  induction ss with
  | nil => simp [sizeAll]
  | cons s ss ih =>
    simp only [List.cons_append, sizeAll, ih]
    omega

theorem sizeProperties_append (ps qs : List (String × Schema)) :
    sizeProperties (ps ++ qs) = sizeProperties ps + sizeProperties qs := by
  induction ps with
  | nil => simp [sizeProperties]
  | cons p ps ih =>
    simp only [List.cons_append, sizeProperties, ih]
    omega

theorem size_movedOut {ps : List (String × Schema)}
    (h : ∀ p ∈ ps, sizeAll (p.2.moved .member) ≤ p.2.size) :
    sizeAll (movedOut ps) ≤ sizeProperties ps := by
  induction ps with
  | nil => simp [movedOut, sizeAll]
  | cons p ps ih =>
    have hp := h p List.mem_cons_self
    have hps := ih fun q hq => h q (List.mem_cons_of_mem _ hq)
    simp only [movedOut, sizeAll_append, sizeProperties]
    omega

theorem size_movedAll {ss : List Schema} (h : ∀ s ∈ ss, sizeAll (s.moved .entry) ≤ s.size) :
    sizeAll (movedAll ss) ≤ sizeAll ss := by
  induction ss with
  | nil => simp [movedAll, sizeAll]
  | cons s ss ih =>
    have hs := h s List.mem_cons_self
    have hss := ih fun x hx => h x (List.mem_cons_of_mem _ hx)
    simp only [movedAll, sizeAll_append, sizeAll]
    omega

/-- What moves out of a schema is no more than what is in it, and out of an entry less. -/
theorem size_moved (s : Schema) :
    sizeAll s.inside < s.size ∧ ∀ p, sizeAll (s.moved p) ≤ s.size := by
  induction s using tree_induction with
  | step s properties items members =>
    have hprops : sizeAll (s.properties.elim [] movedOut) ≤ s.properties.elim 0 sizeProperties := by
      cases hps : s.properties with
      | none => simp [sizeAll]
      | some ps => exact size_movedOut fun p hp => (properties ps hps p hp).2 .member
    have hitems : sizeAll (s.items.elim [] (moved .member)) ≤ s.items.elim 0 size := by
      cases hi : s.items with
      | none => simp [sizeAll]
      | some i => exact (items i hi).2 .member
    have hall : sizeAll (s.allOf.elim [] movedAll) ≤ s.allOf.elim 0 sizeAll := by
      cases hss : s.allOf with
      | none => simp [sizeAll]
      | some ss => exact size_movedAll fun x hx => (members ss hss x hx).2 .entry
    have hinside : sizeAll s.inside < s.size := by
      simp only [inside, sizeAll_append]
      rw [size_eq]
      omega
    refine ⟨hinside, fun p => ?_⟩
    rw [moved_eq]
    split
    · simp [sizeAll]
    · simp [sizeAll]
    · rw [size_eq]
      omega
    · omega

end Schema
end SdkSmith.OpenApi
