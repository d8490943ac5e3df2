import SdkSmith.OpenApi.Hoist
import SdkSmith.Proofs.Naming.FreshNames
import SdkSmith.Proofs.OpenApi.Hoist.SchemaTree
import SdkSmith.Proofs.TableLaws

/-!
The table while schemas are added to it: entries are appended under fresh names, and a signature
that has an entry keeps it.
-/
namespace SdkSmith.OpenApi.Hoard

/-- The name of the entry for a signature. -/
def entryOf (h : Hoard) (g : Signature) : String :=
  (h.known.lookup g).getD ""

/-- One hoard after another: schemas are registered in order, whatever names are wanted. -/
inductive Adds : Hoard → List Schema → Hoard → Prop
  | nil {h : Hoard} : Adds h [] h
  | cons {h h' : Hoard} {s : Schema} {ss : List Schema} (name : String) (origin : Option Origin)
      (rest : Adds (h.register name s origin).2 ss h') : Adds h (s :: ss) h'

/-- Keys are distinct, and the entry for a signature has it. -/
structure Sound (h : Hoard) : Prop where
  nodup : (Table.keys h.table).Nodup
  entry : ∀ g n, h.known.lookup g = some n → ∃ e, Table.find? n h.table = some e ∧ e.signature = g

variable {h h' h'' : Hoard} {g g' : Signature} {n name : String} {s : Schema}
  {ss ss' : List Schema} {origin : Option Origin} {t : Table Schema}

theorem entryOf_of_lookup (hg : h.known.lookup g = some n) : h.entryOf g = n := by
  rw [entryOf, hg, Option.getD_some]

theorem register_of_known (hg : h.known.lookup s.signature = some n) :
    h.register name s origin = (n, h) := by
  simp only [register, hg]

/-- A schema of a new signature is appended under a fresh name. -/
theorem register_of_new (hg : h.known.lookup s.signature = none)
    (hn : n = Naming.freshNumbered (Table.keys h.table) name) : h.register name s origin =
      (n, ⟨h.table ++ [(n, { s with origin := origin })], h.known ++ [(s.signature, n)]⟩) := by
  subst hn
  simp only [register, hg]
  rw [Table.put_of_not_mem (Naming.freshNumbered_not_mem _ _)]

theorem register_keeps (hg : h.known.lookup g = some n) (name : String) (s : Schema)
    (origin : Option Origin) : (h.register name s origin).2.known.lookup g = some n := by
  cases hs : h.known.lookup s.signature with
  | some n' => rwa [register_of_known hs]
  | none =>
    rw [register_of_new hs rfl, List.lookup_append, hg]
    rfl

theorem register_knows (h : Hoard) (name : String) (s : Schema) (origin : Option Origin) :
    (h.register name s origin).2.known.lookup s.signature = some (h.register name s origin).1 := by
  cases hs : h.known.lookup s.signature with
  | some n => rw [register_of_known hs, hs]
  | none => simp [register_of_new hs rfl, List.lookup_append, hs]

theorem signature_withOrigin (s : Schema) (origin : Option Origin) :
    Schema.signature { s with origin := origin } = s.signature := by
  rw [Schema.signature_eq, Schema.signature_eq]
  rfl

theorem register_nodup (hk : (Table.keys h.table).Nodup) (name : String) (s : Schema)
    (origin : Option Origin) : (Table.keys (h.register name s origin).2.table).Nodup := by
  cases hg : h.known.lookup s.signature with
  | some n => rwa [register_of_known hg]
  | none =>
    rw [register_of_new hg rfl, Table.keys_append, Table.keys_cons, Table.keys_nil]
    refine List.nodup_append.mpr ⟨hk, by simp, ?_⟩
    rintro a ha _ (_ | ⟨_, ⟨⟩⟩) rfl
    exact Naming.freshNumbered_not_mem _ _ ha

theorem Sound.register (hs : h.Sound) (name : String) (s : Schema) (origin : Option Origin) :
    (h.register name s origin).2.Sound := by
  refine ⟨register_nodup hs.nodup name s origin, ?_⟩
  cases hg : h.known.lookup s.signature with
  | some n =>
    rw [register_of_known hg]
    exact hs.entry
  | none =>
    rw [register_of_new hg rfl]
    intro g n hn
    rw [List.lookup_append] at hn
    cases hold : h.known.lookup g with
    | some n' =>
      rw [hold, Option.some_or, Option.some.injEq] at hn
      subst hn
      obtain ⟨e, he, heq⟩ := hs.entry g n' hold
      exact ⟨e, Table.find?_append_of_some he, heq⟩
    | none =>
      rw [hold, Option.none_or, List.lookup_cons] at hn
      split at hn
      · rename_i hsig
        cases hn
        refine ⟨_, Table.find?_append_of_not_mem (Naming.freshNumbered_not_mem _ _), ?_⟩
        rw [signature_withOrigin]
        exact (beq_iff_eq.mp hsig).symm
      · simp at hn

theorem sound_ofTable (hk : (Table.keys t).Nodup) : (ofTable t).Sound := by
  refine ⟨hk, ?_⟩
  intro g n hn
  obtain ⟨l₁, l₂, heq, -⟩ := List.lookup_eq_some_iff.mp hn
  have hmem : (g, n) ∈ t.map fun p => (p.2.signature, p.1) := by
    change (ofTable t).known = _ at heq
    rw [show t.map (fun p => (p.2.signature, p.1)) = (ofTable t).known from rfl, heq]
    simp
  obtain ⟨⟨n', e⟩, he, hp⟩ := List.mem_map.mp hmem
  cases hp
  exact ⟨e, Table.find?_of_mem hk he, rfl⟩

/-- In a sound hoard, entries tell signatures apart. -/
theorem Sound.entryOf_inj (hs : h.Sound) (hg : h.known.lookup g = some n)
    (hg' : h.known.lookup g' = some n) : g = g' := by
  obtain ⟨e, he, rfl⟩ := hs.entry g n hg
  obtain ⟨e', he', rfl⟩ := hs.entry g' n hg'
  rw [he] at he'
  cases he'
  rfl

namespace Adds

theorem single (name : String) (origin : Option Origin) :
    Adds h [s] (h.register name s origin).2 :=
  .cons name origin .nil

theorem append (ha : Adds h ss h') (hb : Adds h' ss' h'') : Adds h (ss ++ ss') h'' := by
  induction ha with
  | nil => exact hb
  | cons name origin _ ih => exact .cons name origin (ih hb)

theorem keeps (ha : Adds h ss h') (hg : h.known.lookup g = some n) :
    h'.known.lookup g = some n := by
  induction ha with
  | nil => exact hg
  | cons name origin _ ih => exact ih (register_keeps hg name _ origin)

theorem knows (ha : Adds h ss h') (hs : s ∈ ss) :
    h'.known.lookup s.signature = some (h'.entryOf s.signature) := by
  induction ha with
  | nil => simp at hs
  | cons name origin rest ih =>
    rcases List.mem_cons.mp hs with rfl | hs
    · have hn := rest.keeps (register_knows _ name s origin)
      rw [entryOf_of_lookup hn, hn]
    · exact ih hs

theorem nodup (ha : Adds h ss h') (hk : (Table.keys h.table).Nodup) :
    (Table.keys h'.table).Nodup := by
  induction ha with
  | nil => exact hk
  | cons name origin _ ih => exact ih (register_nodup hk name _ origin)

theorem sound (ha : Adds h ss h') (hs : h.Sound) : h'.Sound := by
  induction ha with
  | nil => exact hs
  | cons name origin _ ih => exact ih (hs.register name _ origin)

/-- Entries are appended, each one of the registered schemas under the name for its signature.
Nothing but the keys of the table it starts from has a part in it. -/
theorem appends (ha : Adds h ss h') : ∃ new : Table Schema, h'.table = h.table ++ new ∧
    (∀ p ∈ new, ∃ s ∈ ss, h'.known.lookup s.signature = some p.1 ∧
      ∃ origin, p.2 = { s with origin := origin }) ∧
    Schema.sizeProperties new ≤ Schema.sizeAll ss ∧
    ∀ t, Table.keys t = Table.keys h.table → Adds ⟨t, h.known⟩ ss ⟨t ++ new, h'.known⟩ := by
  induction ha with
  | nil => exact ⟨[], by simp, by simp, by simp [Schema.sizeProperties], by simp [nil]⟩
  | @cons h h' s ss name origin rest ih =>
    obtain ⟨new, htable, hnew, hsize, honto⟩ := ih
    cases hg : h.known.lookup s.signature with
    | some n =>
      rw [register_of_known hg] at htable honto
      refine ⟨new, htable, ?_, ?_, ?_⟩
      · intro p hp
        obtain ⟨x, hx, hrest⟩ := hnew p hp
        exact ⟨x, List.mem_cons_of_mem _ hx, hrest⟩
      · simp only [Schema.sizeAll]
        omega
      · intro t ht
        refine cons name origin ?_
        rw [register_of_known (h := ⟨t, h.known⟩) hg]
        exact honto t ht
    | none =>
      have hknows := rest.keeps (register_knows h name s origin)
      rw [register_of_new hg rfl] at htable honto hknows
      refine ⟨_ :: new, by rw [htable, List.append_assoc]; rfl, ?_, ?_, ?_⟩
      · intro p hp
        rcases List.mem_cons.mp hp with rfl | hp
        · exact ⟨s, List.mem_cons_self, hknows, origin, rfl⟩
        · obtain ⟨x, hx, hrest⟩ := hnew p hp
          exact ⟨x, List.mem_cons_of_mem _ hx, hrest⟩
      · simp only [Schema.sizeProperties, Schema.sizeAll, Schema.size_withOrigin]
        omega
      · intro t ht
        refine cons name origin ?_
        rw [register_of_new (h := ⟨t, h.known⟩) hg (by rw [ht])]
        have := honto (t ++ [_]) (by rw [Table.keys_append, Table.keys_append, ht])
        rwa [List.append_assoc] at this

/-- Another entry under the same name has no part in what is added. -/
theorem replace {done todo rest : Table Schema} {known known' : List (Signature × String)}
    {p q : String × Schema} (ha : Adds ⟨done ++ p :: todo, known⟩ ss ⟨done ++ p :: rest, known'⟩)
    (hpq : q.1 = p.1) : Adds ⟨done ++ q :: todo, known⟩ ss ⟨done ++ q :: rest, known'⟩ := by
  obtain ⟨new, htable, -, -, honto⟩ := ha.appends
  simp only [List.append_assoc, List.cons_append, List.append_cancel_left_eq,
    List.cons.injEq, true_and] at htable
  subst htable
  have h := honto (done ++ q :: todo) (by simp [hpq])
  rwa [List.append_assoc, List.cons_append] at h

end Adds
end SdkSmith.OpenApi.Hoard
