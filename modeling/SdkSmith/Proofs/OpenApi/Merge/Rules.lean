import SdkSmith.OpenApi.Merge

/-!
The rules that a conversion goes by. They follow references without a limit on how many there may be
in a row, so a derivation is a run that ends by itself. The rules leave no choice.
-/
namespace SdkSmith.OpenApi.Schema

mutual

/-- A schema becomes a type with a name. -/
inductive Converts (table : Table Schema) : String → Schema → Api.Schema → Prop
  | reference {name r : String} {s : Schema} (hr : s.reference = some r) :
      Converts table name s { Api.Schema.scalar name (.named (targetOf r)) with
        nullable := s.isNullable, description := Text.unlessBlank s.description }
  | written {name : String} {s : Schema} {c : Api.Schema} (hr : s.reference = none)
      (h : ConvertsCore table name s c) :
      Converts table name s { c with
        nullable := s.isNullable, description := Text.unlessBlank s.description
        enumValues := s.enumValues.getD [] }

/-- What a schema that is no reference becomes, before it is described. -/
inductive ConvertsCore (table : Table Schema) : String → Schema → Api.Schema → Prop
  | merged {name : String} {s : Schema} {m : Merge} (hall : s.allOf.isSome)
      (h : Merges table s .empty m) :
      ConvertsCore table name s (.object name m.properties m.required)
  | list {name : String} {s i : Schema} {c : Api.Schema} (hall : s.allOf = none)
      (ht : s.primaryType? = some "array") (hi : s.items = some i)
      (h : Converts table (name ++ " item") i c) :
      ConvertsCore table name s (.array name c false)
  | listOfAny {name : String} {s : Schema} (hall : s.allOf = none)
      (ht : s.primaryType? = some "array") (hi : s.items = none) :
      ConvertsCore table name s (.array name (.scalar (name ++ " item") .mixed) false)
  | object {name : String} {s : Schema} {ps : List (String × Schema)}
      {qs : List (String × Api.Schema)} (hall : s.allOf = none)
      (ht : s.primaryType? ≠ some "array") (hps : s.properties = some ps)
      (h : ConvertsAll table ps qs) :
      ConvertsCore table name s (.object name qs (s.required.getD []))
  | value {name : String} {s : Schema} (hall : s.allOf = none)
      (ht : s.primaryType? ≠ some "array") (hps : s.properties = none) :
      ConvertsCore table name s (.scalar name s.valueType)

/-- Properties become types under their names. -/
inductive ConvertsAll (table : Table Schema) :
    List (String × Schema) → List (String × Api.Schema) → Prop
  | nil : ConvertsAll table [] []
  | cons {name : String} {s : Schema} {c : Api.Schema} {ps : List (String × Schema)}
      {qs : List (String × Api.Schema)} (h : Converts table name s c)
      (hs : ConvertsAll table ps qs) : ConvertsAll table ((name, s) :: ps) ((name, c) :: qs)

/-- What is written in a schema is merged: the members of its allOf, then what it says itself. -/
inductive Merges (table : Table Schema) : Schema → Merge → Merge → Prop
  | intro {s : Schema} {m m' : Merge} {qs : List (String × Api.Schema)}
      (h : GathersAll table (s.allOf.getD []) m m')
      (hs : ConvertsAll table (s.properties.getD []) qs) :
      Merges table s m (m'.add qs (s.required.getD []))

/-- A schema is gathered. A reference is followed to an entry that has not been visited. -/
inductive Gathers (table : Table Schema) : Schema → Merge → Merge → Prop
  | missing {s : Schema} {m : Merge} {t : String} (ht : s.target? = some t)
      (he : Table.find? t table = none) : Gathers table s m m
  | visited {s e : Schema} {m : Merge} {t : String} (ht : s.target? = some t)
      (he : Table.find? t table = some e) (hv : t ∈ m.visited) : Gathers table s m m
  | entered {s e : Schema} {m m' : Merge} {t : String} (ht : s.target? = some t)
      (he : Table.find? t table = some e) (hv : t ∉ m.visited)
      (h : Merges table e { m with visited := t :: m.visited } m') : Gathers table s m m'
  | written {s : Schema} {m m' : Merge} (ht : s.target? = none) (h : Merges table s m m') :
      Gathers table s m m'

/-- Schemas are gathered one after another. -/
inductive GathersAll (table : Table Schema) : List Schema → Merge → Merge → Prop
  | nil {m : Merge} : GathersAll table [] m m
  | cons {s : Schema} {ss : List Schema} {m m' m'' : Merge} (h : Gathers table s m m')
      (hs : GathersAll table ss m' m'') : GathersAll table (s :: ss) m m''

end

variable {table : Table Schema} {s : Schema} {m : Merge}

/-- Gathering comes to one result at most. One induction for all rules, since each runs through
the others. -/
theorem Gathers.unique {m₁ m₂ : Merge} (h₁ : Gathers table s m m₁) (h₂ : Gathers table s m m₂) :
    m₁ = m₂ := by
  revert m₂
  refine @Gathers.rec table
    (fun name s c _ => ∀ {c'}, Converts table name s c' → c = c')
    (fun name s c _ => ∀ {c'}, ConvertsCore table name s c' → c = c')
    (fun ps qs _ => ∀ {qs'}, ConvertsAll table ps qs' → qs = qs')
    (fun s m m₁ _ => ∀ {m₂}, Merges table s m m₂ → m₁ = m₂)
    (fun s m m₁ _ => ∀ {m₂}, Gathers table s m m₂ → m₁ = m₂)
    (fun ss m m₁ _ => ∀ {m₂}, GathersAll table ss m m₂ → m₁ = m₂)
    ?reference ?described ?merged ?list ?listOfAny ?object ?value ?nil ?cons ?intro
    ?missing ?visited ?entered ?written ?none ?more s m m₁ h₁
  case reference =>
    intro name r s hr c' h
    cases h <;> simp_all
  case described =>
    intro name s c hr _ ih c' h
    cases h with
    | reference => simp_all
    | written _ h => rw [ih h]
  case merged =>
    intro name s m hall _ ih c' h
    cases h with
    | merged _ h => rw [ih h]
    | _ => simp_all
  case list =>
    intro name s i c hall ht hi _ ih c' h
    cases h with
    | list _ _ hi' h =>
      rw [hi, Option.some.injEq] at hi'
      subst hi'
      rw [ih h]
    | _ => simp_all
  case listOfAny =>
    intro name s hall ht hi c' h
    cases h <;> simp_all
  case object =>
    intro name s ps qs hall ht hps _ ih c' h
    cases h with
    | object _ _ hps' h =>
      rw [hps, Option.some.injEq] at hps'
      subst hps'
      rw [ih h]
    | _ => simp_all
  case value =>
    intro name s hall ht hps c' h
    cases h <;> simp_all
  case nil =>
    intro qs' h
    cases h with | nil => rfl
  case cons =>
    intro name s c ps qs _ _ ih ihs qs' h
    cases h with | cons h hs => rw [ih h, ihs hs]
  case intro =>
    intro s m m₁ qs _ _ ih ihs m₂ h
    cases h with | intro h hs => rw [ih h, ihs hs]
  case missing =>
    intro s m t ht he m₂ h
    cases h <;> simp_all
  case visited =>
    intro s e m t ht he hv m₂ h
    cases h <;> simp_all
  case entered =>
    intro s e m m₁ t ht he hv _ ih m₂ h
    cases h with
    | entered ht' he' _ h =>
      rw [ht, Option.some.injEq] at ht'
      subst ht'
      rw [he, Option.some.injEq] at he'
      subst he'
      exact ih h
    | _ => simp_all
  case written =>
    intro s m m₁ ht _ ih m₂ h
    cases h with
    | written _ h => exact ih h
    | _ => simp_all
  case none =>
    intro m m₂ h
    cases h with | nil => rfl
  case more =>
    intro s ss m m₁ m₂ _ _ ih ihs m₃ h
    cases h with
    | cons h hs =>
      rw [← ih h] at hs
      exact ihs hs

end SdkSmith.OpenApi.Schema
