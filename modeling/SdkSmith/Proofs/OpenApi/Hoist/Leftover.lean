import Mathlib.Data.List.Basic
import SdkSmith.Proofs.OpenApi.Hoist.FixedPoint
import SdkSmith.Proofs.OpenApi.Hoist.Sharing

/-!
Inline objects that hoisting leaves behind. What is among the properties and items of a normal form
and is still an inline object was in a part of the document that hoisting passes over: a body that
needs no name, a member that is kept, or what stands beside the items of a list of objects.
-/
namespace SdkSmith.OpenApi

/-- Whether a schema has properties written out and is neither a reference nor an allOf. -/
def Schema.isLoose (s : Schema) : Bool :=
  s.reference.isNone && s.allOf.isNone && s.properties.any (!·.isEmpty)

mutual

/-- The properties and items in a schema, at any depth and in the members of allOfs too. -/
def Schema.parts : Schema → List Schema
  | ⟨_, _, _, _, properties, _, items, allOf, _, _, _, _, _⟩ =>
    (match properties with
      | some ps => partsOut ps
      | none => []) ++ (match items with
      | some i => i :: parts i
      | none => []) ++ (match allOf with
      | some ss => partsAll ss
      | none => [])

/-- Properties, and the properties and items in them. -/
def Schema.partsOut : List (String × Schema) → List Schema
  | [] => []
  | (_, s) :: ps => s :: parts s ++ partsOut ps

/-- The properties and items in the members of an allOf, but not these members. -/
def Schema.partsAll : List Schema → List Schema
  | [] => []
  | s :: ss => parts s ++ partsAll ss

end

mutual

/-- The properties and items in the parts of a schema that hoisting does not go through. -/
def Schema.passedOver (p : Place) : Schema → List Schema
  | ⟨type, reference, title, description, properties, required, items, allOf, format, nullable,
      enumValues, default, origin⟩ =>
    let s : Schema := ⟨type, reference, title, description, properties, required, items, allOf,
      format, nullable, enumValues, default, origin⟩
    match fate p s with
    | .keep => s.parts
    | .move => []
    | .items => properties.elim [] partsOut ++ (match items with
      | some i => passedOver .member i
      | none => []) ++ allOf.elim [] partsAll
    | .visit => (match properties with
      | some ps => passedOut ps
      | none => []) ++ (match items with
      | some i => passedOver .member i
      | none => []) ++ (match allOf with
      | some ss => passedAll ss
      | none => [])

/-- What hoisting does not go through in properties. -/
def Schema.passedOut : List (String × Schema) → List Schema
  | [] => []
  | (_, s) :: ps => passedOver .member s ++ passedOut ps

/-- What hoisting does not go through in the members of an allOf. -/
def Schema.passedAll : List Schema → List Schema
  | [] => []
  | s :: ss => passedOver .entry s ++ passedAll ss

end

namespace Document

/-- What should not be an inline object: the bodies, and the properties and items in bodies and in
entries. -/
def parts (d : Document) : List Schema :=
  d.bodies.flatMap (fun s => s :: s.parts) ++ d.components.schemas.flatMap (·.2.parts)

/-- What of these hoisting does not go through, given the entries that the walk of the table meets:
bodies that need no name, and parts of entries. -/
def passedOver (d : Document) (t : Table Schema) : List Schema :=
  (d.bodies.filter (!·.needsName)).flatMap (fun s => s :: s.parts) ++
    t.flatMap (·.2.passedOver .entry)

end Document

/-- The inline objects among schemas. -/
def loose (ss : List Schema) : List Schema := ss.filter (·.isLoose)

variable {f : Signature → String} {p : Place} {s : Schema} {d d' : Document} {t : Table Schema}

@[simp] theorem loose_append (ss ss' : List Schema) : loose (ss ++ ss') = loose ss ++ loose ss' :=
  List.filter_append ss ss'

theorem loose_flatMap {α : Type} (l : List α) (g : α → List Schema) :
    loose (l.flatMap g) = l.flatMap fun a => loose (g a) := List.filter_flatMap

namespace Schema

theorem partsOut_eq (ps : List (String × Schema)) :
    partsOut ps = ps.flatMap fun p => p.2 :: p.2.parts := by
  induction ps with
  | nil => rfl
  | cons p ps ih => rw [partsOut, ih, List.flatMap_cons]

theorem partsAll_eq (ss : List Schema) : partsAll ss = ss.flatMap parts := by
  induction ss with
  | nil => rfl
  | cons s ss ih => rw [partsAll, ih, List.flatMap_cons]

theorem passedOut_eq (ps : List (String × Schema)) :
    passedOut ps = ps.flatMap (·.2.passedOver .member) := by
  induction ps with
  | nil => rfl
  | cons p ps ih => rw [passedOut, ih, List.flatMap_cons]

theorem passedAll_eq (ss : List Schema) : passedAll ss = ss.flatMap (passedOver .entry) := by
  induction ss with
  | nil => rfl
  | cons s ss ih => rw [passedAll, ih, List.flatMap_cons]

theorem parts_eq : s.parts = s.properties.elim [] partsOut ++
    s.items.elim [] (fun i => i :: i.parts) ++ s.allOf.elim [] partsAll := by
  obtain ⟨_, _, _, _, properties, _, items, allOf, _⟩ := s
  rw [parts.eq_def]
  cases properties <;> cases items <;> cases allOf <;> rfl

theorem passedOver_eq : s.passedOver p = match fate p s with
    | .keep => s.parts
    | .move => []
    | .items => s.properties.elim [] partsOut ++ s.items.elim [] (passedOver .member) ++
        s.allOf.elim [] partsAll
    | .visit => s.properties.elim [] passedOut ++ s.items.elim [] (passedOver .member) ++
        s.allOf.elim [] passedAll := by
  obtain ⟨_, _, _, _, properties, _, items, allOf, _⟩ := s
  rw [passedOver.eq_def]
  cases properties <;> cases items <;> cases allOf <;> rfl

/-- What needs no name is no inline object. -/
theorem isLoose_of_needsName (h : s.needsName = false) : s.isLoose = false := by
  have hinline : s.isInlineObject = false := (Bool.or_eq_false_iff.mp h).1
  unfold isInlineObject at hinline
  unfold isLoose
  cases hps : s.properties with
  | none => simp
  | some ps =>
    cases hp : ps.isEmpty with
    | true => simp [hp]
    | false => simpa [hps, hp] using hinline

theorem parts_standIn (s : Schema) (name : String) : (standIn s name).parts = [] := by
  rw [parts_eq]
  rfl

/-- A member that is settled is no inline object, so only what is in it counts. -/
theorem loose_member (h : loose (s.settle f .member).parts = loose (s.passedOver .member)) :
    loose (s.settle f .member :: (s.settle f .member).parts) = loose (s.passedOver .member) := by
  have hs := isLoose_of_needsName (needsName_settle (f := f) s)
  rw [← h, loose, List.filter_cons_of_neg (by simp [hs])]
  rfl

theorem loose_partsOut {ps : List (String × Schema)} (h : ∀ p ∈ ps,
    loose (p.2.settle f .member).parts = loose (p.2.passedOver .member)) :
    loose (partsOut (settleOut f ps)) = loose (passedOut ps) := by
  rw [partsOut_eq, settleOut_eq, passedOut_eq, List.flatMap_map, loose_flatMap, loose_flatMap]
  exact List.flatMap_congr fun p hp => loose_member (h p hp)

theorem loose_partsAll {ss : List Schema} (h : ∀ s ∈ ss,
    loose (s.settle f .entry).parts = loose (s.passedOver .entry)) :
    loose (partsAll (settleAll f ss)) = loose (passedAll ss) := by
  rw [partsAll_eq, settleAll_eq, passedAll_eq, List.flatMap_map, loose_flatMap, loose_flatMap]
  exact List.flatMap_congr h

/-- The inline objects in a settled schema are those in the parts that hoisting passed over. -/
theorem loose_settle (s : Schema) (p : Place) :
    loose (s.settle f p).parts = loose (s.passedOver p) := by
  induction s using tree_induction generalizing p with
  | step s properties items members =>
    have hi : loose ((s.items.map (settle f .member)).elim [] fun i => i :: i.parts) =
        loose (s.items.elim [] (passedOver .member)) := by
      cases hi : s.items with
      | none => rfl
      | some i => exact loose_member (items i hi .member)
    rw [settle_eq, passedOver_eq]
    cases hf : fate p s with
    | keep => rfl
    | move => rw [parts_standIn]
    | items =>
      rw [parts_eq]
      simp only [loose_append, hi]
    | visit =>
      have hps : loose ((s.properties.map (settleOut f)).elim [] partsOut) =
          loose (s.properties.elim [] passedOut) := by
        cases hps : s.properties with
        | none => rfl
        | some ps => exact loose_partsOut fun p hp => properties ps hps p hp .member
      have hss : loose ((s.allOf.map (settleAll f)).elim [] partsAll) =
          loose (s.allOf.elim [] passedAll) := by
        cases hss : s.allOf with
        | none => rfl
        | some ss => exact loose_partsAll fun x hx => members ss hss x hx .entry
      rw [parts_eq]
      simp only [settleInside, loose_append, hps, hi, hss]

end Schema

/-- A body that needs a name leaves nothing behind, another one all that is in it. -/
theorem loose_settleBody (s : Schema) : loose (settleBody f s :: (settleBody f s).parts) =
    if s.needsName then [] else loose (s :: s.parts) := by
  cases hs : s.needsName with
  | false => rw [settleBody_eq_self.mpr hs, if_neg Bool.false_ne_true]
  | true =>
    rw [settleBody, if_pos hs, if_pos rfl, Schema.parts_eq]
    rfl

theorem flatMap_filter_not {α β : Type} (q : α → Bool) (g : α → List β) (l : List α) :
    (l.filter (!q ·)).flatMap g = l.flatMap fun a => if q a then [] else g a := by
  induction l with
  | nil => rfl
  | cons a l ih => cases ha : q a <;> simp [ha, ih]

namespace Document

theorem loose_settle : loose (d.settle f t).parts = loose (d.passedOver t) := by
  have hschemas : (d.settle f t).components.schemas = settleEntries f t := rfl
  have hbodies : loose ((d.settle f t).bodies.flatMap fun s => s :: s.parts) =
      loose ((d.bodies.filter (!·.needsName)).flatMap fun s => s :: s.parts) := by
    rw [bodies_settle, List.flatMap_map, loose_flatMap, loose_flatMap, flatMap_filter_not]
    exact List.flatMap_congr fun s _ => loose_settleBody s
  have hentries : loose ((settleEntries f t).flatMap (·.2.parts)) =
      loose (t.flatMap (·.2.passedOver .entry)) := by
    rw [settleEntries, List.flatMap_map, loose_flatMap, loose_flatMap]
    exact List.flatMap_congr fun p _ => p.2.loose_settle .entry
  rw [parts, passedOver, loose_append, loose_append, hschemas, hbodies, hentries]

/-- The inline objects among the bodies, properties and items of a normal form are those in the
parts of the document and of its entries that hoisting passes over. -/
theorem normalize_loose (hk : (Table.keys d.components.schemas).Nodup)
    (hd : d.normalize = .ok d') :
    ∃ t, d.Sources d' t ∧ loose d'.parts = loose (d.passedOver t) := by
  obtain ⟨h, hg, rfl⟩ := hoist_settles hk (normalize_eq_ok.mp hd).1
  exact ⟨h.table, hg.sources, loose_settle⟩

theorem normalize_nestedLists_loose : (Table.keys nestedLists.components.schemas).Nodup ∧
    ∃ d', nestedLists.normalize = .ok d' ∧ d'.parts.length = 7 ∧ loose d'.parts = [] ∧
      ∃ t, nestedLists.Sources d' t ∧ loose d'.parts = loose (nestedLists.passedOver t) := by
  have hk : (Table.keys nestedLists.components.schemas).Nodup := by decide
  have h : nestedLists.normalize.toOption.map (fun d' =>
      (d'.parts.length, (loose d'.parts).isEmpty)) = some (7, true) := by decide +kernel
  obtain ⟨d', hd, hp⟩ := toOption_map_eq_some.mp h
  obtain ⟨hlength, hempty⟩ := Prod.mk.inj hp
  exact ⟨hk, d', hd, hlength, List.isEmpty_iff.mp hempty, normalize_loose hk hd⟩

/-- A property that is a list, and in the allOf of its items an object with an object in it. -/
def listedAllOf : Document :=
  posting [("Team", .objectOf [("members", .arrayOf { Schema.blank with
    allOf := some [.objectOf [("address", .objectOf [("street", .text)])]] })])] .text

/-- The object in the allOf is kept, though it would move out of an entry that is such a list. -/
theorem normalize_listedAllOf : ¬ ∀ d d' : Document, (Table.keys d.components.schemas).Nodup →
    d.normalize = .ok d' → ∀ s ∈ d'.parts, s.isLoose = false := by
  intro hall
  have h : listedAllOf.normalize.toOption.map (·.parts.map (·.isLoose)) =
      some [false, false, false, true, false] := by decide +kernel
  obtain ⟨d', hd, hp⟩ := toOption_map_eq_some.mp h
  have hmem : true ∈ d'.parts.map (·.isLoose) := by
    rw [hp]
    decide
  obtain ⟨s, hs, htrue⟩ := List.mem_map.mp hmem
  rw [hall _ d' (by decide) hd s hs] at htrue
  cases htrue

end Document
end SdkSmith.OpenApi
