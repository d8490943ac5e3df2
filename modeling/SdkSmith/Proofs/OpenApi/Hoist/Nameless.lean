import Mathlib.Data.List.Flatten
import SdkSmith.Proofs.OpenApi.Hoist.Leftover
import SdkSmith.Proofs.OpenApi.Hoist.TableWalk

/-!
How many entries hoisting adds. Each is for a body or an inline object of the document as it was,
and no two are for the same one: what is in an entry that was added was in the document before.
-/
namespace SdkSmith.OpenApi

namespace Schema

/-- The inline objects in a schema, at any depth. -/
def nested (s : Schema) : List Schema := s.parts.filter (·.isInlineObject)

/-- A schema without its origin. -/
def unmarked (s : Schema) : Schema := { s with origin := none }

end Schema

/-- The schemas of a document that need a name: bodies, and the inline objects in them and in the
components. -/
def Document.nameless (d : Document) : List Schema :=
  d.bodies.filter (·.needsName) ++ ((d.bodies.filter (·.needsName)).flatMap Schema.nested ++
    d.components.schemas.flatMap (·.2.nested))

variable {s : Schema} {ss : List Schema} {t : Table Schema} {h h' : Hoard} {d d' : Document}

namespace Schema

/-- Schemas, each with the inline objects in it. -/
def withNested (ss : List Schema) : List Schema := ss.flatMap fun s => s :: s.nested

theorem withNested_flatMap {α : Type} (f : α → List Schema) (l : List α) :
    withNested (l.flatMap f) = l.flatMap fun a => withNested (f a) := List.flatMap_assoc

@[simp] theorem withNested_append (ss ss' : List Schema) :
    withNested (ss ++ ss') = withNested ss ++ withNested ss' := List.flatMap_append

theorem length_withNested (ss : List Schema) :
    (withNested ss).length = ss.length + (ss.flatMap nested).length := by
  induction ss with
  | nil => rfl
  | cons s ss ih =>
    rw [withNested] at ih
    simp only [withNested, List.flatMap_cons, List.length_append, List.length_cons, ih]
    omega

theorem nested_unmarked (s : Schema) : s.unmarked.nested = s.nested := by
  rw [nested, nested, parts_eq, parts_eq]
  rfl

theorem nested_eq (s : Schema) : s.nested = s.properties.elim [] (fun ps => (partsOut ps).filter
      (·.isInlineObject)) ++ s.items.elim [] (fun i => (i :: i.parts).filter (·.isInlineObject)) ++
      s.allOf.elim [] fun ss => (partsAll ss).filter (·.isInlineObject) := by
  rw [nested, parts_eq, List.filter_append, List.filter_append]
  cases s.properties <;> cases s.items <;> cases s.allOf <;> rfl

/-- What moves out of a schema, with what is in it, is in the schema: the schema itself moves only
as an inline object. -/
theorem withNested_moved (s : Schema) : (withNested s.inside).Sublist s.nested ∧
    (withNested (s.moved .member)).Sublist ((s :: s.parts).filter (·.isInlineObject)) := by
  induction s using tree_induction with
  | step s properties items members =>
    have hinside : (withNested s.inside).Sublist s.nested := by
      rw [nested_eq, inside, withNested_append, withNested_append]
      refine .append (.append ?_ ?_) ?_
      · cases hps : s.properties with
        | none => exact .slnil
        | some ps =>
          simp only [Option.elim_some, movedOut_eq, partsOut_eq, withNested_flatMap,
            List.filter_flatMap]
          exact List.Sublist.flatMap_right _ fun p hp => (properties ps hps p hp).2
      · cases hi : s.items with
        | none => exact .slnil
        | some i => exact (items i hi).2
      · cases hss : s.allOf with
        | none => exact .slnil
        | some ss =>
          simp only [Option.elim_some, movedAll_eq, partsAll_eq, withNested_flatMap,
            List.filter_flatMap, moved_entry]
          exact List.Sublist.flatMap_right _ fun x hx => (members ss hss x hx).1
    refine ⟨hinside, ?_⟩
    have hmember : s.nested.Sublist ((s :: s.parts).filter (·.isInlineObject)) :=
      (List.sublist_cons_self s s.parts).filter _
    rw [moved_eq]
    cases hf : fate .member s with
    | keep => exact List.nil_sublist _
    | move =>
      rw [List.filter_cons_of_pos (fate_eq_move hf)]
      simp [withNested, nested]
    | items =>
      refine List.Sublist.trans ?_ hmember
      rw [nested_eq]
      refine .trans ?_ ((List.sublist_append_right _ _).trans (List.sublist_append_left _ _))
      cases hi : s.items with
      | none => exact .slnil
      | some i => exact (items i hi).2
    | visit => exact hinside.trans hmember

end Schema

/-- Each entry that is added is one of the schemas that are registered, but for its origin. -/
theorem Hoard.Adds.sublist (ha : h.Adds ss h') : ∃ new, h'.table = h.table ++ new ∧
    (new.map fun p => p.2.unmarked).Sublist (ss.map Schema.unmarked) := by
  induction ha with
  | nil => exact ⟨[], (List.append_nil _).symm, .slnil⟩
  | @cons h h' s ss name origin rest ih =>
    obtain ⟨new, htable, hnew⟩ := ih
    cases hg : h.known.lookup s.signature with
    | some n =>
      rw [register_of_known hg] at htable
      exact ⟨new, htable, hnew.cons _⟩
    | none =>
      rw [register_of_new hg rfl] at htable
      refine ⟨_ :: new, by rw [htable, List.append_assoc]; rfl, ?_⟩
      exact hnew.cons_cons _

/-- Entries that are added are no more than the schemas that are registered, and in them there is no
more. -/
theorem Hoard.Adds.length_le (ha : h.Adds ss h') : ∃ new, h'.table = h.table ++ new ∧
    new.length ≤ ss.length ∧
    (new.flatMap (·.2.nested)).length ≤ (ss.flatMap Schema.nested).length := by
  obtain ⟨new, htable, hnew⟩ := ha.sublist
  have hnested := hnew.flatMap Schema.nested
  simp only [List.flatMap_map, Schema.nested_unmarked] at hnested
  refine ⟨new, htable, ?_, hnested.length_le⟩
  simpa using hnew.length_le

/-- What moves out of the entries of a table, with what is in it, is in the entries. -/
theorem withNested_movedEntries (t : Table Schema) :
    (Schema.withNested (movedEntries t)).Sublist (t.flatMap (·.2.nested)) := by
  rw [movedEntries, Schema.withNested_flatMap]
  refine List.Sublist.flatMap_right _ fun p _ => ?_
  rw [Schema.moved_entry]
  exact p.2.withNested_moved.1

namespace Document

/-- A hoard that a run on the document ends with has no more entries than there are schemas that
need a name. -/
theorem Gathers.length_le (hg : d.Gathers h) : ∃ new, h.table = d.components.schemas ++ new ∧
    new.length ≤ d.nameless.length := by
  obtain ⟨new, htable : h.table = d.components.schemas ++ new, hlength, hnested⟩ :=
    Hoard.Adds.length_le hg
  refine ⟨new, htable, ?_⟩
  have hmoved := (withNested_movedEntries h.table).length_le
  rw [Schema.length_withNested, htable, List.flatMap_append, List.length_append] at hmoved
  rw [moved, List.flatMap_append, List.length_append, htable] at hnested
  rw [moved, List.length_append, htable] at hlength
  rw [nameless, List.length_append, List.length_append]
  omega

theorem normalize_of_hoist (hd : d.hoist = .ok d') :
    d.normalize = d'.checkReferences.map fun _ => d' := by
  rw [normalize, hd]
  change (d'.checkReferences >>= fun _ => pure d') = _
  cases d'.checkReferences <;> rfl

/-- However the components refer to each other, hoisting ends: its run is the only one without a
bound. The walk visits every entry of the table that it ends with, and of these no more are new than
there were schemas that need a name. All that is left for the normal form is to check references. -/
theorem normalize_ends (hk : (Table.keys d.components.schemas).Nodup) :
    ∃ visited, (∀ names r, d.Hoists names r ↔ names = visited ∧ r = d.hoist) ∧
      ∀ d', d.hoist = .ok d' → d.normalize = d'.checkReferences.map (fun _ => d') ∧
        Table.keys d'.components.schemas = visited ∧
        ∃ added, Table.keys d'.components.schemas = Table.keys d.components.schemas ++ added ∧
          added.length ≤ d.nameless.length := by
  obtain ⟨visited, hrun, hvisited⟩ := hoists_hoist hk
  refine ⟨visited, fun names r => ⟨hrun.unique, ?_⟩, fun d' hd => ?_⟩
  · rintro ⟨rfl, rfl⟩
    exact hrun
  · refine ⟨normalize_of_hoist hd, hvisited d' hd, ?_⟩
    obtain ⟨h, hg, rfl⟩ := hoist_settles hk hd
    obtain ⟨new, htable, hlength⟩ := hg.length_le
    have hschemas : (d.settle h.entryOf h.table).components.schemas =
        settleEntries h.entryOf h.table := rfl
    refine ⟨Table.keys new, ?_, ?_⟩
    · rw [hschemas, keys_settleEntries, htable, Table.keys_append]
    · simpa [Table.keys] using hlength

/-- Components that refer to themselves and to each other, and objects in them and in the body, of
which two and two are alike. -/
def entangled : Document :=
  posting [("Author", .objectOf [("books", .arrayOf (.objectOf [("author", .refTo "Author")]))]),
    ("Loop", .objectOf [("self", .refTo "Loop")]),
    ("Hall", .objectOf [("store", .objectOf [("room", .text)])]),
    ("Yard", .objectOf [("shed", .objectOf [("room", .text)])])]
    (.objectOf [("loan", .objectOf [("author", .refTo "Author")])])

theorem normalize_entangled_ends : (Table.keys entangled.components.schemas).Nodup ∧
    entangled.nameless.length = 5 ∧ ∃ d', entangled.hoist = .ok d' ∧
      entangled.Hoists ["Author", "Loop", "Hall", "Yard", "CreateRequest", "AuthorBook",
        "HallStore"] (.ok d') := by
  have hk : (Table.keys entangled.components.schemas).Nodup := by decide
  have hrun : entangled.hoist.toOption.map (fun d' => Table.keys d'.components.schemas) =
      some ["Author", "Loop", "Hall", "Yard", "CreateRequest", "AuthorBook", "HallStore"] := by
    decide +kernel
  obtain ⟨d', hd, hkeys⟩ := toOption_map_eq_some.mp hrun
  obtain ⟨visited, hwalk, hends⟩ := normalize_ends hk
  obtain ⟨-, hvisited, -⟩ := hends d' hd
  refine ⟨hk, by decide +kernel, d', hd, (hwalk _ _).mpr ⟨?_, hd.symm⟩⟩
  rw [← hvisited, hkeys]

end Document
end SdkSmith.OpenApi
