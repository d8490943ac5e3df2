import SdkSmith.OpenApi.Merge
import SdkSmith.Proofs.OpenApi.Hoist.SchemaTree
import SdkSmith.Proofs.TableLaws

/-! The conversion of schemas, one equation for each of its recursions. -/
namespace SdkSmith.OpenApi

variable {follow : Follow} {table : Table Schema} {name : String} {s : Schema} {m : Merge}

theorem convertProperties_eq (ps : List (String × Schema)) :
    convertProperties follow ps = ps.map fun p => (p.1, convertWith follow p.1 p.2) := by
  induction ps with
  | nil => rfl
  | cons p ps ih => rw [convertProperties, ih, List.map_cons]

@[simp] theorem keys_convertProperties (ps : List (String × Schema)) :
    Table.keys (convertProperties follow ps) = Table.keys ps := by
  simp [convertProperties_eq, Table.keys]

theorem gatherAll_eq (ss : List Schema) (m : Merge) :
    gatherAll follow ss m = ss.foldl (fun m s => gather follow s m) m := by
  induction ss generalizing m with
  | nil => rfl
  | cons s ss ih => rw [gatherAll, ih, List.foldl_cons]

/-- What a schema's own properties and required names make of what its allOf gathered. -/
def Schema.own (follow : Follow) (s : Schema) (m : Merge) : Merge :=
  m.add (s.properties.elim [] (convertProperties follow)) (s.required.getD [])

/-- Gathering what is written in a schema: the members of its allOf, then what it says itself. -/
def Schema.body (follow : Follow) (s : Schema) (m : Merge) : Merge :=
  s.own follow (s.allOf.elim m (gatherAll follow · m))

theorem gather_eq : gather follow s m = match s.reference with
    | some r => follow (targetOf r) m
    | none => s.body follow m := by
  obtain ⟨_, reference, _, _, properties, _, _, allOf, _⟩ := s
  rw [gather.eq_def]
  cases reference <;> cases properties <;> cases allOf <;> rfl

theorem gather_of_written (h : s.reference = none) : gather follow s m = s.body follow m := by
  rw [gather_eq, h]

/-- An entry that is entered counts with what is written in it. -/
theorem gather_withoutReference : gather follow { s with reference := none } m = s.body follow m :=
  gather_of_written rfl

/-- A schema that is no reference, before nullability, description and enumeration are set. -/
def Schema.core (follow : Follow) (name : String) (s : Schema) : Api.Schema :=
  match s.allOf with
  | some ss =>
    let m := s.own follow (gatherAll follow ss .empty)
    .object name m.properties m.required
  | none =>
    if s.primaryType? = some "array" then
      .array name (s.items.elim (.scalar (name ++ " item") .mixed)
        (convertWith follow (name ++ " item"))) false
    else match s.properties with
      | some ps => .object name (convertProperties follow ps) (s.required.getD [])
      | none => .scalar name s.valueType

theorem convertWith_eq : convertWith follow name s = match s.reference with
    | some r => { Api.Schema.scalar name (.named (targetOf r)) with
        nullable := s.isNullable, description := Text.unlessBlank s.description }
    | none => { s.core follow name with
        nullable := s.isNullable, description := Text.unlessBlank s.description
        enumValues := s.enumValues.getD [] } := by
  obtain ⟨_, reference, _, _, properties, _, items, allOf, _⟩ := s
  rw [convertWith.eq_def]
  cases reference <;> cases properties <;> cases items <;> cases allOf <;> rfl

@[simp] theorem convertWith_name : (convertWith follow name s).name = name := by
  rw [convertWith_eq]
  cases s.reference with
  | some r => rfl
  | none =>
    change (s.core follow name).name = name
    unfold Schema.core
    split
    · rfl
    · split
      · rfl
      · split <;> rfl

/-- What is gathered is under its own names. -/
def Merge.Named (m : Merge) : Prop :=
  ∀ p ∈ m.properties, p.2.name = p.1

theorem Merge.empty_named : Merge.empty.Named := by
  intro p hp
  cases hp

theorem Schema.own_named (hm : m.Named) : (s.own follow m).Named := by
  intro p hp
  rcases Table.mem_putAll hp with hp | hp
  · exact hm p hp
  · cases hps : s.properties with
    | none => simp [hps] at hp
    | some ps =>
      rw [hps, Option.elim_some, convertProperties_eq] at hp
      obtain ⟨q, -, rfl⟩ := List.mem_map.mp hp
      exact convertWith_name

section
variable {P : Merge → Prop}

/-- Gathering keeps what a schema's own part keeps, if following references does. -/
theorem gather_preserves (hown : ∀ s m, P m → P (Schema.own follow s m))
    (hf : ∀ target m, P m → P (follow target m)) (s : Schema) (hm : P m) :
    P (gather follow s m) := by
  induction s using Schema.tree_induction generalizing m with
  | step s properties items members =>
    rw [gather_eq]
    cases s.reference with
    | some r => exact hf _ _ hm
    | none =>
      refine hown _ _ ?_
      cases hss : s.allOf with
      | none => exact hm
      | some ss =>
        rw [Option.elim_some, gatherAll_eq]
        exact List.foldlRecOn ss _ hm fun m hm x hx => members ss hss x hx hm

theorem gatherAll_preserves (hown : ∀ s m, P m → P (Schema.own follow s m))
    (hf : ∀ target m, P m → P (follow target m)) (ss : List Schema) (hm : P m) :
    P (gatherAll follow ss m) := by
  rw [gatherAll_eq]
  exact List.foldlRecOn ss _ hm fun m hm x _ => gather_preserves hown hf x hm

theorem followIn_preserves (hown : ∀ follow s m, P m → P (Schema.own follow s m))
    (hvisit : ∀ target m, P m → P { m with visited := target :: m.visited })
    (fuel : Nat) (target : String) (m : Merge) (hm : P m) : P (followIn table fuel target m) := by
  induction fuel generalizing target m with
  | zero => exact hm
  | succ fuel ih =>
    unfold followIn
    split
    · exact hm
    · split
      · exact hm
      · exact gather_preserves (hown _) ih _ (hvisit target m hm)

end

/-- Whatever an allOf gathers in a table is under its own names. -/
theorem gatherAll_named (fuel : Nat) (ss : List Schema) :
    (gatherAll (followIn table fuel) ss .empty).Named :=
  gatherAll_preserves (fun _ _ => Schema.own_named)
    (followIn_preserves (fun _ _ _ => Schema.own_named) (fun _ _ hm => hm) fuel) ss
    Merge.empty_named

end SdkSmith.OpenApi
