import SdkSmith.OpenApi.Source
import SdkSmith.Proofs.Runs
import SdkSmith.Proofs.TableLaws

/-!
A table that is read has distinct keys, so the table of components of every document has. So has
every object in a JSON text.
-/
namespace SdkSmith

namespace Document

variable {α β : Type} {d : Datum} {r : Reader α} {a : α} {b : β}

namespace Placed

theorem seq_eq_ok {g : Placed (α → β)} {x : Placed α} : g <*> x = (Except.ok b : Placed β) ↔
    ∃ k a, g = (Except.ok k : Placed (α → β)) ∧ x = (Except.ok a : Placed α) ∧ k a = b := by
  constructor
  · intro h
    cases g <;> cases x <;> cases h
    exact ⟨_, _, rfl, rfl, rfl⟩
  · rintro ⟨k, a, rfl, rfl, rfl⟩
    rfl

theorem map_eq_ok {k : α → β} {x : Placed α} : k <$> x = (Except.ok b : Placed β) ↔
    ∃ a, x = (Except.ok a : Placed α) ∧ k a = b := by
  constructor
  · intro h
    cases x <;> cases h
    exact ⟨_, rfl, rfl⟩
  · rintro ⟨a, rfl, rfl⟩
    rfl

theorem of_result_guarded (fault? : Option (Nat × Mismatch)) {x : Placed α}
    (h : (guarded fault? x).result = .ok a) : x = (Except.ok a : Placed α) := by
  cases fault? <;> cases x <;> cases h
  rfl

end Placed

namespace Reader

/-- A record that is read was built from some fields. -/
theorem record_eq_ok {name : String} {names : List String} {build : Fields → Placed α}
    (h : record name names build d = .ok a) : ∃ f, build f = (Except.ok a : Placed α) := by
  unfold record at h
  split at h
  · exact ⟨_, Placed.of_result_guarded _ h⟩
  · exact ⟨_, Placed.of_result_guarded _ h⟩
  · split at h
    · exact ⟨_, Placed.of_result_guarded none h⟩
    · cases h
  · cases h

theorem table_nodup {t : Table α} (h : table r d = .ok t) : (Table.keys t).Nodup := by
  unfold table at h
  split at h
  · obtain ⟨l, -, rfl⟩ := SdkSmith.map_eq_ok.mp h
    exact Table.nodup_putAll List.nodup_nil
  · split at h
    · cases h
      exact List.nodup_nil
    · cases h
  · cases h

end Reader

/-- What a member with a default is, read or left out. -/
theorem Fields.withDefault_eq_ok {f : Fields} {name : String} {other : α}
    (h : f.withDefault name other r = (Except.ok a : Placed α)) :
    a = other ∨ ∃ d, r d = .ok a := by
  unfold withDefault at h
  split at h
  · rename_i place d _
    unfold readAt at h
    split at h
    · cases h
      exact Or.inr ⟨d, ‹_›⟩
    · cases h
  · cases h
    exact Or.inl rfl

end Document

namespace Json
open Document (Datum Scalar)

variable {fuel depth : Nat} {s r : List Char} {d : Datum} {source : String}
  {members : List (String × Json)}

/-- Whether a document is no scalar that stands for an object. -/
def IsPlain (d : Datum) : Prop :=
  ∀ x members, d = .scalar x → x.value? ≠ some (.object members)

theorem isPlain_leaf {v? : Option Json} (h : ∀ members, v? ≠ some (.object members)) :
    IsPlain (Reader.leaf v?) := by
  intro x members hx
  cases v? with
  | none => cases hx
  | some v =>
    cases hx
    exact h members

theorem isPlain_nested (depth : Nat) {d : Datum} (h : IsPlain d) :
    IsPlain (Reader.nested depth d) := by
  unfold Reader.nested
  split
  · exact h
  · exact fun _ _ hx => nomatch hx

theorem isPlain_list (items : List Datum) (free : Bool) : IsPlain (.list items free) :=
  fun _ _ hx => nomatch hx

theorem isPlain_record (ms : List (Scalar × Datum)) (free : Bool) : IsPlain (.record ms free) :=
  fun _ _ hx => nomatch hx

theorem isPlain_value? (h : Reader.value? fuel depth s = some (d, r)) : IsPlain d := by
  cases fuel with
  | zero => cases h
  | succ fuel =>
    rw [Reader.value?] at h
    split at h
    · cases h
      exact isPlain_leaf fun _ hv => nomatch hv
    · cases h
      exact isPlain_leaf fun _ hv => nomatch hv
    · cases h
      exact isPlain_leaf fun _ hv => nomatch hv
    · obtain ⟨⟨t, r'⟩, -, heq⟩ := Option.map_eq_some_iff.mp h
      cases heq
      exact isPlain_leaf fun _ hv => by cases t <;> cases hv
    · obtain ⟨⟨n, r'⟩, -, heq⟩ := Option.map_eq_some_iff.mp h
      cases heq
      exact isPlain_leaf fun _ hv => by cases n <;> cases hv
    · split at h
      · cases h
        exact isPlain_nested depth (isPlain_list _ _)
      · obtain ⟨⟨ds, r'⟩, -, heq⟩ := Option.map_eq_some_iff.mp h
        cases heq
        exact isPlain_nested depth (isPlain_list _ _)
    · split at h
      · cases h
        exact isPlain_nested depth (isPlain_record _ _)
      · obtain ⟨⟨ms, r'⟩, -, heq⟩ := Option.map_eq_some_iff.mp h
        cases heq
        exact isPlain_nested depth (isPlain_record _ _)
    · obtain ⟨⟨n, r'⟩, -, heq⟩ := Option.map_eq_some_iff.mp h
      cases heq
      exact isPlain_leaf fun _ hv => by cases n <;> cases hv

/-- The keys of an object in a text are distinct, as a key that comes again takes the place of the
one before it. -/
theorem parse?_nodup (h : parse? source = some (.object members)) :
    (Table.keys members).Nodup := by
  obtain ⟨d, hread, hvalue⟩ := Option.bind_eq_some_iff.mp h
  have hplain : IsPlain d := by
    simp only [read?] at hread
    split at hread
    · rename_i d' r' hd
      split at hread
      · cases hread
        exact isPlain_value? hd
      · cases hread
    · cases hread
  unfold Datum.value? at hvalue
  split at hvalue
  · exact absurd hvalue (hplain _ members rfl)
  · obtain ⟨vs, -, heq⟩ := Option.map_eq_some_iff.mp hvalue
    cases heq
  · obtain ⟨ms, -, heq⟩ := Option.map_eq_some_iff.mp hvalue
    cases heq
    exact Table.nodup_putAll List.nodup_nil
  · cases hvalue

end Json

namespace OpenApi

variable {d : Document}

theorem Read.components_nodup {x : SdkSmith.Document.Datum} {c : Components}
    (h : Read.components x = .ok c) : (Table.keys c.schemas).Nodup := by
  obtain ⟨f, hc⟩ := Document.Reader.record_eq_ok h
  obtain ⟨_, _, hparameters, -, rfl⟩ := Document.Placed.seq_eq_ok.mp hc
  obtain ⟨_, _, hmk, -, rfl⟩ := Document.Placed.seq_eq_ok.mp hparameters
  obtain ⟨schemas, hschemas, rfl⟩ := Document.Placed.map_eq_ok.mp hmk
  rcases Document.Fields.withDefault_eq_ok hschemas with rfl | ⟨y, hy⟩
  · exact List.nodup_nil
  · exact Document.Reader.table_nodup hy

theorem Read.document_nodup {x : SdkSmith.Document.Datum} (h : Read.document x = .ok d) :
    (Table.keys d.components.schemas).Nodup := by
  obtain ⟨f, hd⟩ := Document.Reader.record_eq_ok h
  obtain ⟨_, _, hcomponents, -, rfl⟩ := Document.Placed.seq_eq_ok.mp hd
  obtain ⟨_, components, hpaths, hc, rfl⟩ := Document.Placed.seq_eq_ok.mp hcomponents
  obtain ⟨_, _, hservers, -, rfl⟩ := Document.Placed.seq_eq_ok.mp hpaths
  obtain ⟨_, _, hinfo, -, rfl⟩ := Document.Placed.seq_eq_ok.mp hservers
  obtain ⟨_, _, hversion, -, rfl⟩ := Document.Placed.seq_eq_ok.mp hinfo
  obtain ⟨_, -, rfl⟩ := Document.Placed.map_eq_ok.mp hversion
  rcases Document.Fields.withDefault_eq_ok hc with rfl | ⟨y, hy⟩
  · exact List.nodup_nil
  · exact Read.components_nodup hy

/-- The components of a document that is read have distinct names. -/
theorem Document.parse_nodup {source : String} (h : Document.parse source = .ok d) :
    (Table.keys d.components.schemas).Nodup := by
  unfold Document.parse at h
  simp only at h
  split at h
  · rename_i d' hd'
    cases h
    obtain ⟨x, -, hx⟩ := Option.map_eq_some_iff.mp hd'
    exact Read.document_nodup hx
  · cases h

end OpenApi
end SdkSmith
