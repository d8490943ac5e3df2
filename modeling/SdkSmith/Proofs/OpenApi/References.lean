import SdkSmith.OpenApi.References
import SdkSmith.Proofs.Runs
import SdkSmith.Proofs.TableLaws

/-! What the check of references establishes, whatever place it would name in an error. -/
namespace SdkSmith.OpenApi

variable {table : Table Schema} {location r : String} {s : Schema} {d : Document}

theorem checkSchema_eq : checkSchema table location s = (do
    s.reference.forM fun r => if resolves table r then pure () else throw (.unresolved r location)
    s.properties.forM (checkProperties table location)
    s.items.forM (checkSchema table (location ++ ".items"))
    s.allOf.forM (checkAll table location 0)) := by
  obtain ⟨_, reference, _, _, properties, _, items, allOf, _⟩ := s
  rw [checkSchema.eq_def]
  cases reference with
  | none => cases properties <;> cases items <;> cases allOf <;> rfl
  | some r =>
    cases hr : resolves table r with
    | true => cases properties <;> cases items <;> cases allOf <;> simp [hr, Option.forM]
    | false =>
      simp only [hr, Option.forM]
      rfl

theorem checkProperties_eq_ok {ps : List (String × Schema)} :
    checkProperties table location ps = .ok () ↔
      ∀ p ∈ ps, checkSchema table (location ++ ".properties." ++ p.1) p.2 = .ok () := by
  induction ps with
  | nil => simp [checkProperties, pure, Except.pure]
  | cons p ps ih => rw [checkProperties, seq_eq_ok, ih, List.forall_mem_cons]

/-- Every reference in the schema leads to an entry of the table. -/
def Checked (table : Table Schema) (s : Schema) : Prop :=
  ∃ location, checkSchema table location s = .ok ()

theorem checked_of_checkAll {ss : List Schema} {i : Nat}
    (h : checkAll table location i ss = .ok ()) (hs : s ∈ ss) : Checked table s := by
  induction ss generalizing i with
  | nil => simp at hs
  | cons x ss ih =>
    rw [checkAll, seq_eq_ok] at h
    rcases List.mem_cons.mp hs with rfl | hs
    · exact ⟨_, h.1⟩
    · exact ih h.2 hs

theorem resolves_iff (h : resolves table r = true) : targetOf r ∈ Table.keys table := by
  unfold resolves at h
  unfold targetOf
  split at h
  · rename_i name hname
    rw [hname]
    exact Table.has_iff.mp h
  · simp at h

/-- A schema is checked when its reference and all its parts are. -/
theorem checkSchema_eq_ok : checkSchema table location s = .ok () ↔
    (∀ r, s.reference = some r → resolves table r = true) ∧
    (∀ ps, s.properties = some ps → checkProperties table location ps = .ok ()) ∧
    (∀ i, s.items = some i → checkSchema table (location ++ ".items") i = .ok ()) ∧
    (∀ ss, s.allOf = some ss → checkAll table location 0 ss = .ok ()) := by
  rw [checkSchema_eq, seq_eq_ok, seq_eq_ok, seq_eq_ok]
  simp only [option_forM_eq_ok]
  have hr (r : String) : (if resolves table r = true then pure () else
      throw (.unresolved r location) : Except Failure Unit) = .ok () ↔ resolves table r = true := by
    split <;> simp_all [pure, Except.pure, throw, throwThe, MonadExceptOf.throw]
  simp only [hr]

namespace Checked

theorem target (h : Checked table s) (hr : s.reference = some r) :
    targetOf r ∈ Table.keys table := by
  obtain ⟨_, h⟩ := h
  exact resolves_iff ((checkSchema_eq_ok.mp h).1 r hr)

theorem property (h : Checked table s) {ps : List (String × Schema)}
    (hps : s.properties = some ps) {p : String × Schema} (hp : p ∈ ps) : Checked table p.2 := by
  obtain ⟨_, h⟩ := h
  exact ⟨_, checkProperties_eq_ok.mp ((checkSchema_eq_ok.mp h).2.1 ps hps) p hp⟩

theorem items (h : Checked table s) {i : Schema} (hi : s.items = some i) : Checked table i := by
  obtain ⟨_, h⟩ := h
  exact ⟨_, (checkSchema_eq_ok.mp h).2.2.1 i hi⟩

theorem member (h : Checked table s) {ss : List Schema} (hss : s.allOf = some ss) {x : Schema}
    (hx : x ∈ ss) : Checked table x := by
  obtain ⟨_, h⟩ := h
  exact checked_of_checkAll ((checkSchema_eq_ok.mp h).2.2.2 ss hss) hx

/-- An allOf follows an entry as if it were no reference itself. -/
theorem withoutReference (h : Checked table s) : Checked table { s with reference := none } := by
  obtain ⟨location, h⟩ := h
  exact ⟨location, checkSchema_eq_ok.mpr ⟨by simp, (checkSchema_eq_ok.mp h).2⟩⟩

end Checked

theorem checkSchema?_eq_ok {o : Option Schema} (h : checkSchema? table location o = .ok ())
    (hs : o = some s) : Checked table s := by
  subst hs
  exact ⟨location, h⟩

/-- What the check of a document covers: entries, component parameters, and each operation's
parameters, request body and responses. -/
structure Document.References (d : Document) : Prop where
  schema : ∀ p ∈ d.components.schemas, Checked d.components.schemas p.2
  parameter : ∀ p ∈ d.components.parameters, ∀ s, p.2.schema = some s →
    Checked d.components.schemas s
  own : ∀ p ∈ d.operations, ∀ q ∈ p.2.1.parameters ++ p.2.2.2.parameters,
    ∀ s, q.schema = some s → Checked d.components.schemas s
  request : ∀ p ∈ d.operations, ∀ s, p.2.2.2.requestSchema? = some s →
    Checked d.components.schemas s
  response : ∀ p ∈ d.operations, ∀ q ∈ p.2.2.2.responses, ∀ s, bodySchema? q.2.content = some s →
    Checked d.components.schemas s

theorem Document.references (h : d.checkReferences = .ok ()) : d.References := by
  unfold checkReferences at h
  simp only [seq_eq_ok, forIn_eq_ok] at h
  obtain ⟨hschemas, hparameters, hoperations, _⟩ := h
  have hop : ∀ p ∈ d.operations,
      (∀ q ∈ p.2.1.parameters ++ p.2.2.2.parameters, ∃ l,
        checkSchema? d.components.schemas l q.schema = .ok ()) ∧
      (∃ l, checkSchema? d.components.schemas l p.2.2.2.requestSchema? = .ok ()) ∧
      (∀ q ∈ p.2.2.2.responses, ∃ l,
        checkSchema? d.components.schemas l (bodySchema? q.2.content) = .ok ()) := by
    intro p hp
    have h := hoperations p hp
    unfold checkOperation at h
    simp only [seq_eq_ok, forIn_eq_ok] at h
    exact ⟨fun q hq => ⟨_, h.1 q hq⟩, ⟨_, h.2.1⟩, fun q hq => ⟨_, h.2.2.1 q hq⟩⟩
  refine ⟨fun p hp => ⟨_, hschemas p hp⟩, ?_, ?_, ?_, ?_⟩
  · intro p hp s hs
    exact checkSchema?_eq_ok (hparameters p hp) hs
  · intro p hp q hq s hs
    obtain ⟨l, hl⟩ := (hop p hp).1 q hq
    exact checkSchema?_eq_ok hl hs
  · intro p hp s hs
    obtain ⟨l, hl⟩ := (hop p hp).2.1
    exact checkSchema?_eq_ok hl hs
  · intro p hp q hq s hs
    obtain ⟨l, hl⟩ := (hop p hp).2.2 q hq
    exact checkSchema?_eq_ok hl hs

theorem normalize_eq_ok {d' : Document} :
    d.normalize = .ok d' ↔ d.hoist = .ok d' ∧ d'.checkReferences = .ok () := by
  unfold Document.normalize
  simp only [bind_eq_ok, pure, Except.pure, Except.ok.injEq]
  constructor
  · rintro ⟨_, hh, _, hc, rfl⟩
    exact ⟨hh, hc⟩
  · rintro ⟨hh, hc⟩
    exact ⟨d', hh, (), hc, rfl⟩

end SdkSmith.OpenApi
