import Mathlib.Data.List.Forall2
import SdkSmith.Proofs.OpenApi.Hoist.Normal
import SdkSmith.Proofs.OpenApi.References

/-!
What hoisting keeps of the components. Their names stay where they are and no other entry takes one
of them; each component says of itself what it said, and in it nothing but inline objects gives way
to references.
-/
namespace SdkSmith.OpenApi

namespace Schema

/-- Two schemas say the same of themselves, whatever the schemas in them are. -/
structure Alike (s t : Schema) : Prop where
  type : t.type = s.type
  reference : t.reference = s.reference
  title : t.title = s.title
  description : t.description = s.description
  properties : t.properties.map Table.keys = s.properties.map Table.keys
  required : t.required = s.required
  items : t.items.isSome = s.items.isSome
  allOf : t.allOf.map List.length = s.allOf.map List.length
  format : t.format = s.format
  nullable : t.nullable = s.nullable
  enumValues : t.enumValues = s.enumValues
  default : t.default = s.default
  origin : t.origin = s.origin

/-- The properties, the items and the allOf members of a schema, in this order. -/
def children (s : Schema) : List Schema :=
  (s.properties.getD []).map (·.2) ++ s.items.toList ++ s.allOf.getD []

/-- A schema with some of the inline objects in it replaced by references to entries. -/
inductive Replaced (names : List String) : Schema → Schema → Prop
  | reference {s : Schema} {name : String} (hs : s.isInlineObject = true) (hname : name ∈ names) :
      Replaced names s (standIn s name)
  | inside {s t : Schema} (alike : s.Alike t)
      (children : List.Forall₂ (Replaced names) s.children t.children) : Replaced names s t

end Schema

variable {f : Signature → String} {p : Place} {s : Schema} {names : List String}
  {d d' : Document} {h : Hoard}

namespace Schema

theorem Alike.refl (s : Schema) : s.Alike s :=
  ⟨rfl, rfl, rfl, rfl, rfl, rfl, rfl, rfl, rfl, rfl, rfl, rfl, rfl⟩

/-- Items may change as long as there are some. -/
theorem alike_items (s : Schema) (g : Schema → Schema) :
    s.Alike { s with items := s.items.map g } :=
  ⟨rfl, rfl, rfl, rfl, rfl, rfl, Option.isSome_map, rfl, rfl, rfl, rfl, rfl, rfl⟩

theorem alike_settleInside (f : Signature → String) (s : Schema) : s.Alike (s.settleInside f) := by
  have hkeys : (s.properties.map (settleOut f)).map Table.keys = s.properties.map Table.keys := by
    cases s.properties with
    | none => rfl
    | some ps => simp [settleOut_eq, Table.keys]
  have hlength : (s.allOf.map (settleAll f)).map List.length = s.allOf.map List.length := by
    cases s.allOf with
    | none => rfl
    | some ss => simp [settleAll_eq]
  exact ⟨rfl, rfl, rfl, rfl, hkeys, rfl, Option.isSome_map, hlength, rfl, rfl, rfl, rfl, rfl⟩

theorem mem_children {x : Schema} : x ∈ s.children ↔
    (∃ ps, s.properties = some ps ∧ ∃ p ∈ ps, p.2 = x) ∨ s.items = some x ∨
      ∃ ss, s.allOf = some ss ∧ x ∈ ss := by
  obtain ⟨_, _, _, _, properties, _, items, allOf, _⟩ := s
  cases properties <;> cases items <;> cases allOf <;> simp [children, eq_comm]

theorem Replaced.refl (names : List String) (s : Schema) : Replaced names s s := by
  induction s using tree_induction with
  | step s properties items members =>
    refine .inside (.refl s) (List.forall₂_same.mpr fun x hx => ?_)
    rcases mem_children.mp hx with ⟨ps, hps, p, hp, rfl⟩ | hi | ⟨ss, hss, hx⟩
    · exact properties ps hps p hp
    · exact items x hi
    · exact members ss hss x hx

theorem mem_inside {x : Schema} : x ∈ s.inside ↔
    (∃ ps, s.properties = some ps ∧ ∃ p ∈ ps, x ∈ p.2.moved .member) ∨
      (∃ i, s.items = some i ∧ x ∈ i.moved .member) ∨
      ∃ ss, s.allOf = some ss ∧ ∃ y ∈ ss, x ∈ y.moved .entry := by
  obtain ⟨_, _, _, _, properties, _, items, allOf, _⟩ := s
  cases properties <;> cases items <;> cases allOf <;> simp [inside, movedOut_eq, movedAll_eq]

/-- What moves out of a schema goes to entries with these names. -/
def Lands (f : Signature → String) (names : List String) (ss : List Schema) : Prop :=
  ∀ x ∈ ss, f x.signature ∈ names

/-- Settling the parts of a schema replaces in it what settling replaces in each of them. -/
theorem replaced_inside (hf : Lands f names s.inside)
    (properties : ∀ ps, s.properties = some ps → ∀ p ∈ ps, Lands f names (p.2.moved .member) →
      Replaced names p.2 (p.2.settle f .member))
    (items : ∀ i, s.items = some i → Lands f names (i.moved .member) →
      Replaced names i (i.settle f .member))
    (members : ∀ ss, s.allOf = some ss → ∀ x ∈ ss, Lands f names (x.moved .entry) →
      Replaced names x (x.settle f .entry)) :
    List.Forall₂ (Replaced names) s.children (s.settleInside f).children := by
  refine List.rel_append (List.rel_append ?_ ?_) ?_
  · cases hps : s.properties with
    | none => simp [settleInside, hps]
    | some ps =>
      simp only [settleInside, hps, Option.map_some, Option.getD_some, settleOut_eq, List.map_map,
        List.forall₂_map_left_iff, List.forall₂_map_right_iff]
      refine List.forall₂_same.mpr fun p hp => properties ps hps p hp fun x hx => ?_
      exact hf x (mem_inside.mpr (Or.inl ⟨ps, hps, p, hp, hx⟩))
  · cases hi : s.items with
    | none => simp [settleInside, hi]
    | some i =>
      have hlands : Lands f names (i.moved .member) := fun x hx =>
        hf x (mem_inside.mpr (Or.inr (Or.inl ⟨i, hi, hx⟩)))
      simpa [settleInside, hi] using items i hi hlands
  · cases hss : s.allOf with
    | none => simp [settleInside, hss]
    | some ss =>
      simp only [settleInside, hss, Option.map_some, Option.getD_some, settleAll_eq,
        List.forall₂_map_right_iff]
      refine List.forall₂_same.mpr fun y hy => members ss hss y hy fun x hx => ?_
      exact hf x (mem_inside.mpr (Or.inr (Or.inr ⟨ss, hss, y, hy, hx⟩)))

/-- A schema that is settled has references in it in the place of inline objects, and no other
changes. -/
theorem replaced_settle (s : Schema) (p : Place) (hf : Lands f names (s.moved p)) :
    Replaced names s (s.settle f p) := by
  induction s using tree_induction generalizing p with
  | step s properties items members =>
    rw [moved_eq] at hf
    rw [settle_eq]
    cases hfate : fate p s with
    | keep => exact .refl names s
    | move =>
      simp only [hfate] at hf
      exact .reference (fate_eq_move hfate) (hf s List.mem_cons_self)
    | items =>
      simp only [hfate] at hf
      have hsame (ss : List Schema) : List.Forall₂ (Replaced names) ss ss :=
        List.forall₂_same.mpr fun x _ => .refl names x
      refine .inside (alike_items s _) (List.rel_append (List.rel_append (hsame _) ?_) (hsame _))
      cases hi : s.items with
      | none => exact .nil
      | some i =>
        rw [hi] at hf
        exact .cons (items i hi .member hf) .nil
    | visit =>
      simp only [hfate] at hf
      exact .inside (alike_settleInside f s) (replaced_inside hf
        (fun ps hps p hp => properties ps hps p hp .member) (fun i hi => items i hi .member)
        fun ss hss x hx => members ss hss x hx .entry)

/-- An entry stays what it is, and only in it something gives way. -/
theorem replaced_entry (s : Schema) (hf : Lands f names (s.moved .entry)) :
    s.Alike (s.settle f .entry) ∧
      List.Forall₂ (Replaced names) s.children (s.settle f .entry).children := by
  rw [moved_entry] at hf
  rw [settle_entry]
  exact ⟨alike_settleInside f s, replaced_inside hf (fun _ _ p _ => replaced_settle p.2 .member)
    (fun i _ => replaced_settle i .member) fun _ _ x _ => replaced_settle x .entry⟩

end Schema

namespace Document

/-- What moves out of the entries goes to entries of the last table. -/
theorem Gathers.lands (hg : d.Gathers h) (hk : (Table.keys d.components.schemas).Nodup)
    {p : String × Schema} (hp : p ∈ h.table) :
    Schema.Lands h.entryOf (Table.keys h.table) (p.2.moved .entry) := by
  intro x hx
  have hmoved : x ∈ d.moved h.table :=
    List.mem_append_right _ (List.mem_flatMap.mpr ⟨p, hp, hx⟩)
  obtain ⟨-, e, he, -⟩ := hg.entry hk hmoved
  exact Table.mem_keys_of_mem (Table.mem_of_find? he)

/-- The components stay the first entries of the table, in their order and under names of their
own. Each says of itself what it said, and references to entries replace inline objects in it. -/
theorem normalize_preserves (hk : (Table.keys d.components.schemas).Nodup)
    (hd : d.normalize = .ok d') :
    Table.keys d.components.schemas <+: Table.keys d'.components.schemas ∧
      (Table.keys d'.components.schemas).Nodup ∧
      ∀ (i : Nat) (name : String) (s : Schema), d.components.schemas[i]? = some (name, s) →
        ∃ t, d'.components.schemas[i]? = some (name, t) ∧ s.Alike t ∧
          List.Forall₂ (Schema.Replaced (Table.keys d'.components.schemas))
            s.children t.children := by
  obtain ⟨h, hg, rfl⟩ := hoist_settles hk (normalize_eq_ok.mp hd).1
  have hkeys : Table.keys (d.settle h.entryOf h.table).components.schemas = Table.keys h.table :=
    keys_settleEntries
  obtain ⟨new, htable, -⟩ := Hoard.Adds.appends hg
  have htable : h.table = d.components.schemas ++ new := htable
  rw [hkeys]
  refine ⟨?_, Hoard.Adds.nodup hg hk, ?_⟩
  · rw [htable, Table.keys_append]
    exact List.prefix_append _ _
  · intro i name s hs
    have hi : h.table[i]? = some (name, s) := by
      rw [htable, List.getElem?_append_left (List.getElem?_eq_some_iff.mp hs).1, hs]
    refine ⟨s.settle h.entryOf .entry, ?_, ?_⟩
    · change (settleEntries h.entryOf h.table)[i]? = _
      rw [settleEntries, List.getElem?_map, hi]
      rfl
    · exact Schema.replaced_entry s (hg.lands hk (List.mem_of_getElem? hi))

/-- A component with an object in it, and another under the name which that object would have. -/
def clash : Document :=
  posting [("Shop", .objectOf [("shelf", .objectOf [("label", .text)])]),
    ("ShopShelf", .objectOf [("size", .text)])] .text

theorem normalize_clash_preserves : (Table.keys clash.components.schemas).Nodup ∧
    ∃ d', clash.normalize = .ok d' ∧
      Table.keys d'.components.schemas = ["Shop", "ShopShelf", "ShopShelf2"] ∧
      Table.keys clash.components.schemas <+: Table.keys d'.components.schemas ∧
      (Table.keys d'.components.schemas).Nodup ∧
      ∀ (i : Nat) (name : String) (s : Schema), clash.components.schemas[i]? = some (name, s) →
        ∃ t, d'.components.schemas[i]? = some (name, t) ∧ s.Alike t ∧
          List.Forall₂ (Schema.Replaced (Table.keys d'.components.schemas))
            s.children t.children := by
  have hk : (Table.keys clash.components.schemas).Nodup := by decide
  have h : clash.normalize.toOption.map (Table.keys ·.components.schemas) =
      some ["Shop", "ShopShelf", "ShopShelf2"] := by decide +kernel
  obtain ⟨d', hd, hkeys⟩ := toOption_map_eq_some.mp h
  exact ⟨hk, d', hd, hkeys, normalize_preserves hk hd⟩

end Document
end SdkSmith.OpenApi
