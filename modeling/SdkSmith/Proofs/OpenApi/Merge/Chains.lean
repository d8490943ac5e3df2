import SdkSmith.Proofs.OpenApi.Merge.Inheritance
import SdkSmith.Proofs.OpenApi.Merge.Rules

/-!
Chains of conversions. A conversion converts other schemas on the way; where it can be derived, none
of these conversions comes back to itself.
-/
namespace SdkSmith.OpenApi.Schema

open Relation

/-- What a conversion converts on the way: the properties of the schemas that a schema is made of
or, if it is a list, its items. References are not followed. -/
inductive Leads (table : Table Schema) (s : Schema) : Schema → Prop
  | property {x : Schema} {ps : List (String × Schema)} {p : String × Schema}
      (written : s.reference = none)
      (merged : s.allOf = none → s.primaryType? ≠ some "array")
      (made : Extends table s x) (members : x.properties = some ps) (mem : p ∈ ps) :
      Leads table s p.2
  | items {i : Schema} (written : s.reference = none) (single : s.allOf = none)
      (list : s.primaryType? = some "array") (item : s.items = some i) : Leads table s i

/-- No conversion on the way comes back to itself. That of a property would, if the allOf of the
property led back to the schema that it belongs to. -/
def Ends (table : Table Schema) (s : Schema) : Prop :=
  ∀ y, ReflTransGen (Leads table) s y → ¬ TransGen (Leads table) y y

variable {table : Table Schema} {s x : Schema} {m : Merge}

theorem Ends.leads (h : s.Ends table) (hx : s.Leads table x) : x.Ends table :=
  fun y hy => h y (.head hx hy)

/-- A schema without an allOf is made of itself only. -/
theorem Extends.eq_of_allOf (h : Extends table s x) (hs : s.allOf = none) : s = x := by
  rcases ReflTransGen.cases_head h with rfl | ⟨y, ⟨ss, hss, -⟩, -⟩
  · rfl
  · rw [hs] at hss
    cases hss

/-- What is converted on the way ends, so the conversion does. -/
theorem Ends.of_leads (h : ∀ y, s.Leads table y → y.Ends table) : s.Ends table := by
  intro y hy hc
  rcases ReflTransGen.cases_head hy with rfl | ⟨z, hsz, hzy⟩
  · obtain ⟨z, hsz, hzs⟩ := TransGen.head'_iff.mp hc
    exact h z hsz _ hzs hc
  · exact h z hsz y hzy hc

/-- The conversions of the properties of a schema end. -/
def PropertiesEnd (table : Table Schema) (s : Schema) : Prop :=
  ∀ ps, s.properties = some ps → ∀ p ∈ ps, p.2.Ends table

/-- A schema is converted to the end if the properties of all that it is made of are. -/
theorem Ends.of_done {v : List String} (hall : s.allOf.isSome)
    (hc : Covers table (PropertiesEnd table) [] v) (hs : s.Done table (PropertiesEnd table) v) :
    s.Ends table := by
  refine .of_leads fun y hy => ?_
  rcases hy with ⟨-, -, hmade, hps, hp⟩ | ⟨-, hnone, -, -⟩
  · exact hs.extends hc hmade _ hps _ hp
  · simp [hnone] at hall

/-- A derivation has no room for a conversion that comes back to itself. One induction for all
rules, since each runs through the others. -/
theorem Merges.ends {m' : Merge} (h : Merges table s m m') :
    Covers table (PropertiesEnd table) m.visited m'.visited ∧
      s.Done table (PropertiesEnd table) m'.visited := by
  refine @Merges.rec table
    (fun _ s _ _ => s.Ends table)
    (fun _ s _ _ => s.Ends table)
    (fun ps _ _ => ∀ p ∈ ps, p.2.Ends table)
    (fun s m m' _ => Covers table (PropertiesEnd table) m.visited m'.visited ∧
      s.Done table (PropertiesEnd table) m'.visited)
    (fun s m m' _ => Covers table (PropertiesEnd table) m.visited m'.visited ∧
      s.Included table (PropertiesEnd table) m'.visited)
    (fun ss m m' _ => Covers table (PropertiesEnd table) m.visited m'.visited ∧
      ∀ x ∈ ss, x.Included table (PropertiesEnd table) m'.visited)
    ?reference ?described ?merged ?list ?listOfAny ?object ?value ?nil ?cons ?intro
    ?missing ?visited ?entered ?written ?none ?more s m m' h
  case reference =>
    intro name r s hr
    refine .of_leads fun y hy => ?_
    rcases hy with ⟨hnone⟩ | ⟨hnone⟩ <;> simp [hr] at hnone
  case described =>
    exact fun _ _ ih => ih
  case merged =>
    exact fun hall _ ih => .of_done hall ih.1 ih.2
  case list =>
    intro name s i c hall ht hi _ ih
    refine .of_leads fun y hy => ?_
    rcases hy with ⟨-, hlist, -, -, -⟩ | ⟨-, -, -, hi'⟩
    · exact absurd ht (hlist hall)
    · rw [hi, Option.some.injEq] at hi'
      exact hi' ▸ ih
  case listOfAny =>
    intro name s hall ht hi
    refine .of_leads fun y hy => ?_
    rcases hy with ⟨-, hlist, -, -, -⟩ | ⟨-, -, -, hi'⟩
    · exact absurd ht (hlist hall)
    · simp [hi] at hi'
  case object =>
    intro name s ps qs hall ht hps _ ih
    refine .of_leads fun y hy => ?_
    rcases hy with ⟨-, -, hmade, hps', hp⟩ | ⟨-, -, hlist, -⟩
    · rw [← hmade.eq_of_allOf hall, hps, Option.some.injEq] at hps'
      exact ih _ (hps' ▸ hp)
    · exact absurd hlist ht
  case value =>
    intro name s hall ht hps
    refine .of_leads fun y hy => ?_
    rcases hy with ⟨-, -, hmade, hps', -⟩ | ⟨-, -, hlist, -⟩
    · simp [← hmade.eq_of_allOf hall, hps] at hps'
    · exact absurd hlist ht
  case nil => simp
  case cons =>
    intro name s c ps qs _ _ ih ihs
    exact List.forall_mem_cons.mpr ⟨ih, ihs⟩
  case intro =>
    intro s m m' qs _ _ ih ihs
    refine ⟨ih.1, .of_members (fun ps hps p hp => ihs p (by rwa [hps])) fun ss hss y hy => ?_⟩
    exact ih.2 y (by rwa [hss])
  case missing =>
    intro s m t ht he
    refine ⟨.refl _ _ _, fun u hu hk => ?_, fun hnone => ?_⟩
    · rw [ht, Option.some.injEq] at hu
      rw [← Table.find?_isSome, ← hu, he] at hk
      cases hk
    · simp [ht] at hnone
  case visited =>
    intro s e m t ht he hv
    refine ⟨.refl _ _ _, fun u hu _ => ?_, fun hnone => ?_⟩
    · rw [ht, Option.some.injEq] at hu
      exact hu ▸ hv
    · simp [ht] at hnone
  case entered =>
    intro s e m m' t ht he _ _ ih
    refine ⟨ih.1.enter he ih.2, fun u hu _ => ?_, fun hnone => ?_⟩
    · rw [ht, Option.some.injEq] at hu
      exact ih.1.grows (hu ▸ List.mem_cons_self)
    · simp [ht] at hnone
  case written =>
    intro s m m' ht _ ih
    refine ⟨ih.1, fun u hu _ => ?_, fun _ => ih.2⟩
    simp [ht] at hu
  case none => exact fun {m} => ⟨.refl _ _ _, by simp⟩
  case more =>
    intro s ss m m' m'' _ _ ih ihs
    exact ⟨ih.1.trans (fun _ h => h) ihs.1,
      List.forall_mem_cons.mpr ⟨ih.2.mono (fun _ h => h) ihs.1.grows, ihs.2⟩⟩

/-- The properties of a schema have no members, and the members of its allOf are references. -/
def flat (s : Schema) : Bool :=
  (s.properties.getD []).all (fun p =>
    p.2.properties.isNone && p.2.items.isNone && p.2.allOf.isNone) &&
  (s.allOf.getD []).all (·.reference.isSome)

theorem flat_of_extends (hs : s.flat) (ht : ∀ p ∈ table, p.2.flat) (h : Extends table s x) :
    x.flat := by
  induction h with
  | refl => exact hs
  | tail _ hb ih =>
    obtain ⟨ss, hss, y, hy, hz⟩ := hb
    simp only [flat, hss, Option.getD_some, Bool.and_eq_true, List.all_eq_true] at ih
    obtain ⟨r, hr⟩ := Option.isSome_iff_exists.mp (ih.2 y hy)
    rw [source?_of_target (target?_of_reference hr)] at hz
    exact ht _ (Table.mem_of_find? hz)

theorem not_leads_of_flat {p : String × Schema} (hx : x.flat) (hp : p ∈ x.properties.getD []) :
    ¬ p.2.Leads table s := by
  simp only [flat, Bool.and_eq_true, List.all_eq_true, Option.isNone_iff_eq_none] at hx
  obtain ⟨⟨hprops, hitems⟩, hall⟩ := hx.1 p hp
  rintro (⟨-, -, hmade, hps, -⟩ | ⟨-, -, -, hi⟩)
  · rw [← Extends.eq_of_allOf hmade hall, hprops] at hps
    cases hps
  · rw [hitems] at hi
    cases hi

/-- Where there are references only in allOfs, however they lead around, conversions end. -/
theorem Ends.of_flat (hall : s.allOf.isSome) (hs : s.flat) (ht : ∀ p ∈ table, p.2.flat) :
    s.Ends table := by
  refine .of_leads fun y hy => .of_leads fun z hz => ?_
  rcases hy with ⟨-, -, hmade, hps, hp⟩ | ⟨-, hnone, -, -⟩
  · exact absurd hz (not_leads_of_flat (flat_of_extends hs ht hmade) (by rwa [hps]))
  · simp [hnone] at hall

end SdkSmith.OpenApi.Schema
