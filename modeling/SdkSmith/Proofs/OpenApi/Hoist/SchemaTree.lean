import SdkSmith.OpenApi.Hoist

/-! Schemas as trees: an induction principle, and each recursion over them as one equation. -/
namespace SdkSmith.OpenApi

namespace Schema

/-- Properties, items and allOf members are smaller than the schema they stand in. -/
@[elab_as_elim]
theorem tree_induction {motive : Schema → Prop}
    (step : ∀ s : Schema, (∀ ps, s.properties = some ps → ∀ p ∈ ps, motive p.2) →
      (∀ i, s.items = some i → motive i) → (∀ ss, s.allOf = some ss → ∀ x ∈ ss, motive x) →
      motive s) (s : Schema) : motive s := by
  refine @Schema.rec motive
    (fun o => ∀ ps, o = some ps → ∀ p ∈ ps, motive p.2)
    (fun o => ∀ i, o = some i → motive i)
    (fun o => ∀ ss, o = some ss → ∀ x ∈ ss, motive x)
    (fun ps => ∀ p ∈ ps, motive p.2)
    (fun ss => ∀ x ∈ ss, motive x)
    (fun p => motive p.2) ?_ ?_ ?_ ?_ ?_ ?_ ?_ ?_ ?_ ?_ ?_ ?_ s
  · intro _ _ _ _ _ _ _ _ _ _ _ _ _ hps hi hss
    exact step _ hps hi hss
  · rintro _ ⟨⟩
  · rintro ps ih _ ⟨rfl⟩
    exact ih
  · rintro _ ⟨⟩
  · rintro i ih _ ⟨rfl⟩
    exact ih
  · rintro _ ⟨⟩
  · rintro ss ih _ ⟨rfl⟩
    exact ih
  · rintro _ ⟨⟩
  · rintro p ps hp hps _ (_ | ⟨_, h⟩)
    · exact hp
    · exact hps _ h
  · rintro _ ⟨⟩
  · rintro s ss hs hss _ (_ | ⟨_, h⟩)
    · exact hs
    · exact hss _ h
  · intro _ _ h
    exact h

theorem signature_eq (s : Schema) : s.signature = s.layer :: s.items.elim [] signature := by
  obtain ⟨_, _, _, _, _, _, items, _⟩ := s
  rw [signature.eq_def]
  cases items <;> rfl

theorem isArrayOfInlineObjects_eq (s : Schema) : s.isArrayOfInlineObjects =
    (s.reference.isNone && s.primaryType? == some "array" &&
      s.items.any fun i => i.isInlineObject || i.isArrayOfInlineObjects) := by
  obtain ⟨_, _, _, _, _, _, items, _⟩ := s
  rw [isArrayOfInlineObjects.eq_def]
  cases items <;> rfl

theorem primaryType?_of_list {s : Schema} (h : s.isArrayOfInlineObjects = true) :
    s.primaryType? = some "array" := by
  rw [isArrayOfInlineObjects_eq] at h
  simp only [Bool.and_eq_true, beq_iff_eq] at h
  exact h.1.2

theorem size_eq (s : Schema) : s.size =
    1 + s.properties.elim 0 sizeProperties + s.items.elim 0 size + s.allOf.elim 0 sizeAll := by
  obtain ⟨_, _, _, _, properties, _, items, allOf, _⟩ := s
  rw [size.eq_def]
  cases properties <;> cases items <;> cases allOf <;> rfl

theorem size_withOrigin (s : Schema) (origin : Option Origin) :
    size { s with origin := origin } = s.size := by
  rw [size_eq, size_eq]

/-- A text. -/
def text : Schema := { blank with type := some (.single "string") }

/-- An object with its properties written out. -/
def objectOf (ps : List (String × Schema)) : Schema :=
  { blank with type := some (.single "object"), properties := some ps }

/-- A list. -/
def arrayOf (items : Schema) : Schema :=
  { blank with type := some (.single "array"), items := some items }

end Schema

/-- A document with a table of components and one operation, which sends a body. -/
def Document.posting (schemas : Table Schema) (body : Schema) : Document where
  version := none
  info := some ⟨some "Sample", none, none⟩
  servers := []
  paths := some [("/samples", {
    get := none
    put := none
    post := some {
      operationId := some "create"
      summary := none
      description := none
      tags := []
      parameters := []
      requestBody := some ⟨none, true, [("application/json", ⟨some body⟩)]⟩
      responses := []
    }
    delete := none
    options := none
    head := none
    patch := none
    trace := none
    parameters := []
  })]
  components := ⟨schemas, [], []⟩
  security := []

end SdkSmith.OpenApi
