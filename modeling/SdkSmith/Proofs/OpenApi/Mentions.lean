import SdkSmith.OpenApi.Description
import SdkSmith.Proofs.OpenApi.Merge.Conversion
import SdkSmith.Proofs.Runs

/-!
The schemas that a description names. References are checked in the document and names are read
off its conversion, so what has to agree is where the two walks go.
-/
namespace SdkSmith.Api

mutual

/-- The schemas that a type names, its items and properties included. -/
def Schema.mentions : Schema → List String
  | ⟨_, type, _, _, items, properties, _, _⟩ =>
    type.schemaName?.toList ++ (match items with
      | some i => mentions i
      | none => []) ++ mentionsIn properties

/-- The schemas that properties name. -/
def Schema.mentionsIn : List (String × Schema) → List String
  | [] => []
  | (_, s) :: ps => mentions s ++ mentionsIn ps

end

/-- The schema that a parameter names. -/
def Parameter.mentions (p : Parameter) : List String :=
  p.type.schemaName?.toList

/-- The schemas that an endpoint names in its parameters and responses. -/
def Endpoint.mentions (e : Endpoint) : List String :=
  (e.pathParameters ++ e.queryParameters ++ e.headerParameters ++ e.bodyParameters).flatMap
    Parameter.mentions ++ e.responses.flatMap (·.schema.toList)

/-- The schemas that a description names. -/
def Description.mentions (a : Description) : List String :=
  a.components.schemas.flatMap (·.2.mentions) ++ a.components.responseSchemas ++
    a.endpoints.flatMap Endpoint.mentions

/-- Every schema that a type names is among some names. -/
def Schema.Within (names : List String) (s : Schema) : Prop := ∀ n ∈ s.mentions, n ∈ names

/-- Every schema that properties name is among some names. -/
def PropertiesWithin (names : List String) (ps : Table Schema) : Prop :=
  ∀ p ∈ ps, p.2.Within names

variable {names : List String} {name : String} {s : Schema} {ps ps' : Table Schema}

theorem Schema.mentionsIn_eq (ps : List (String × Schema)) :
    mentionsIn ps = ps.flatMap (·.2.mentions) := by
  induction ps with
  | nil => rfl
  | cons p ps ih => rw [mentionsIn, ih, List.flatMap_cons]

theorem Schema.mentions_eq : s.mentions = s.type.schemaName?.toList ++ s.items.elim [] mentions ++
    s.properties.flatMap (·.2.mentions) := by
  obtain ⟨_, _, _, _, items, _, _, _⟩ := s
  cases items <;> rw [mentions, mentionsIn_eq] <;> rfl

/-- The names in a type do not depend on what is said about it. -/
theorem Schema.Within.describe (h : s.Within names) (nullable : Bool) (about : Option String)
    (enumValues : List Json) : { s with
      nullable := nullable, description := about, enumValues := enumValues }.Within names := by
  unfold Within
  rw [mentions_eq]
  rw [Within, mentions_eq] at h
  exact h

theorem within_scalar {t : ValueType} (h : ∀ n, t.schemaName? = some n → n ∈ names) :
    (Schema.scalar name t).Within names := by
  intro n hn
  rw [Schema.mentions_eq] at hn
  simp only [Schema.scalar, Option.elim_none, List.flatMap_nil, List.append_nil,
    Option.mem_toList] at hn
  exact h n hn

theorem within_array {flag : Bool} (h : s.Within names) :
    (Schema.array name s flag).Within names := by
  intro n hn
  rw [Schema.mentions_eq] at hn
  apply h
  simpa [Schema.array, ValueType.schemaName?] using hn

theorem within_object {required : List String} (h : PropertiesWithin names ps) :
    (Schema.object name ps required).Within names := by
  intro n hn
  rw [Schema.mentions_eq] at hn
  obtain ⟨p, hp, hn⟩ : ∃ p ∈ ps, n ∈ p.2.mentions := by
    simpa [Schema.object, ValueType.schemaName?] using hn
  exact h p hp n hn

theorem Schema.Within.property (h : s.Within names) : PropertiesWithin names s.properties := by
  intro p hp n hn
  apply h
  rw [mentions_eq]
  exact List.mem_append_right _ (List.mem_flatMap.mpr ⟨p, hp, hn⟩)

theorem Schema.Within.type (h : s.Within names) (n : String) (hn : s.type.schemaName? = some n) :
    n ∈ names := by
  apply h
  rw [mentions_eq, hn]
  simp

theorem PropertiesWithin.putAll (h : PropertiesWithin names ps) (h' : PropertiesWithin names ps') :
    PropertiesWithin names (Table.putAll ps ps') := by
  intro p hp
  rcases Table.mem_putAll hp with hp | hp
  · exact h p hp
  · exact h' p hp

end SdkSmith.Api
