import Mathlib.Data.List.Forall2
import SdkSmith.Proofs.OpenApi.Merge.Inheritance

/-!
The schemas that an allOf is merged from, in order: members come before the schema that they stand
in, and each component is entered at most once. Of the definitions of one property the last counts,
and what is gathered is the types of these.
-/
namespace SdkSmith

namespace Table

/-- Whether two tables have the same keys in the same order, with values that are related. -/
def Agree {κ α β : Type} (R : κ → α → β → Prop) : List (κ × α) → List (κ × β) → Prop :=
  List.Forall₂ fun p q => p.1 = q.1 ∧ R q.1 p.2 q.2

variable {κ α β : Type} {R : κ → α → β → Prop} {k : κ} {v : α} {w : β} {t t' : List (κ × α)}
  {u u' : List (κ × β)}

/-- What is made of agreeing tables is equal if what is made of agreeing values is. -/
theorem Agree.map_eq {γ : Type} {f : κ × α → γ} {g : κ × β → γ} (h : Agree R t u)
    (hfg : ∀ q ∈ u, ∀ v, R q.1 v q.2 → f (q.1, v) = g q) : t.map f = u.map g := by
  induction h with
  | nil => rfl
  | @cons p q t u hpq _ ih =>
    rw [List.forall_mem_cons] at hfg
    obtain ⟨k, v⟩ := p
    obtain ⟨rfl, hv⟩ := hpq
    rw [List.map_cons, List.map_cons, hfg.1 v hv, ih hfg.2]

variable [DecidableEq κ]

theorem Agree.put (h : Agree R t u) (hv : R k v w) : Agree R (put k v t) (put k w u) := by
  induction h with
  | nil => exact .cons ⟨rfl, hv⟩ .nil
  | @cons p q t u hpq hrest ih =>
    simp only [Table.put, hpq.1]
    split
    · rename_i hk
      exact .cons ⟨rfl, hk ▸ hv⟩ hrest
    · exact .cons ⟨rfl, hpq.2⟩ ih

/-- Tables that agree still do when tables that agree are put into them. -/
theorem Agree.putAll (h : Agree R t u) (h' : Agree R t' u') :
    Agree R (putAll t t') (putAll u u') := by
  induction h' generalizing t u with
  | nil => exact h
  | @cons p q t' u' hpq _ ih =>
    obtain ⟨k, v⟩ := p
    obtain ⟨_, w⟩ := q
    obtain ⟨rfl, hvw⟩ := hpq
    exact ih (h.put hvw)

theorem ofList_append (l l' : List (κ × α)) : ofList (l ++ l') = putAll (ofList l) l' :=
  List.foldl_append

end Table

namespace OpenApi

/-- A walk through members of an allOf, from some components on that have been entered: the schemas
that it meets, in the order in which they are merged, and what has been entered in the end. What is
written in an entry counts, even if the entry is itself a reference. -/
inductive Lineage (table : Table Schema) :
    List String → List Schema → List Schema → List String → Prop
  | nil {v : List String} : Lineage table v [] [] v
  | written {s : Schema} {l parts parts' : List Schema} {v v' v'' : List String}
      (hs : s.target? = none) (members : Lineage table v (s.allOf.getD []) parts v')
      (rest : Lineage table v' l parts' v'') : Lineage table v (s :: l) (parts ++ s :: parts') v''
  | passed {s : Schema} {t : String} {l parts : List Schema} {v v' : List String}
      (hs : s.target? = some t) (ht : t ∈ v ∨ Table.find? t table = none)
      (rest : Lineage table v l parts v') : Lineage table v (s :: l) parts v'
  | entered {s e : Schema} {t : String} {l parts parts' : List Schema} {v v' v'' : List String}
      (hs : s.target? = some t) (ht : t ∉ v) (he : Table.find? t table = some e)
      (members : Lineage table (t :: v) (e.allOf.getD []) parts v')
      (rest : Lineage table v' l parts' v'') : Lineage table v (s :: l) (parts ++ e :: parts') v''

/-- The properties that some schemas define, each by the last of them that does. -/
def definitions (parts : List Schema) : Table Schema :=
  Table.ofList (parts.flatMap fun s => s.properties.getD [])

/-- The names that some schemas require. -/
def requiredNames (parts : List Schema) : List String :=
  parts.flatMap fun s => s.required.getD []

/-- Whether a type is that of a schema, with references in a row followed to some depth. -/
def IsTypeOf (table : Table Schema) (name : String) (t : Api.Schema) (s : Schema) : Prop :=
  ∃ depth, t = convertWith (followIn table depth) name s

/-- Whether a merge has gathered what some schemas define: the type of each property, and the names
that are required. -/
structure Merge.From (table : Table Schema) (parts : List Schema) (m : Merge) : Prop where
  properties : Table.Agree (IsTypeOf table) m.properties (definitions parts)
  required : ∀ n, n ∈ m.required ↔ n ∈ requiredNames parts

variable {table : Table Schema} {s : Schema} {l l' parts parts' : List Schema}
  {v v' v'' w : List String} {m : Merge} {n fuel : Nat} {t : String}

/-- What the last schema defines goes over what is defined before it. -/
theorem definitions_append_singleton (parts : List Schema) (s : Schema) :
    definitions (parts ++ [s]) = Table.putAll (definitions parts) (s.properties.getD []) := by
  rw [definitions, List.flatMap_append, List.flatMap_singleton, Table.ofList_append]
  rfl

namespace Lineage

theorem grows (h : Lineage table v l parts v') : v ⊆ v' := by
  induction h with
  | nil => exact List.Subset.refl _
  | written _ _ _ ihmembers ihrest => exact List.Subset.trans ihmembers ihrest
  | passed _ _ _ ih => exact ih
  | entered _ _ _ _ _ ihmembers ihrest =>
    exact List.Subset.trans (List.subset_cons_self _ _) (List.Subset.trans ihmembers ihrest)

theorem append (h : Lineage table v l parts v') (h' : Lineage table v' l' parts' v'') :
    Lineage table v (l ++ l') (parts ++ parts') v'' := by
  induction h with
  | nil => exact h'
  | written hs members _ _ ih =>
    rw [List.append_assoc, List.cons_append]
    exact .written hs members (ih h')
  | passed hs ht _ ih => exact .passed hs ht (ih h')
  | entered hs ht he members _ _ ih =>
    rw [List.append_assoc, List.cons_append]
    exact .entered hs ht he members (ih h')

/-- There is only one such walk. -/
theorem unique (h : Lineage table v l parts v') (h' : Lineage table v l parts' w) :
    parts' = parts ∧ w = v' := by
  induction h generalizing parts' w with
  | nil =>
    cases h'
    exact ⟨rfl, rfl⟩
  | written hs _ _ ihmembers ihrest =>
    cases h' with
    | written _ members' rest' =>
      obtain ⟨rfl, rfl⟩ := ihmembers members'
      obtain ⟨rfl, rfl⟩ := ihrest rest'
      exact ⟨rfl, rfl⟩
    | passed hs' => simp [hs] at hs'
    | entered hs' => simp [hs] at hs'
  | passed hs ht _ ih =>
    cases h' with
    | written hs' => simp [hs] at hs'
    | passed _ _ rest' => exact ih rest'
    | entered hs' ht' he' =>
      cases hs.symm.trans hs'
      simp [ht', he'] at ht
  | entered hs ht he _ _ ihmembers ihrest =>
    cases h' with
    | written hs' => simp [hs] at hs'
    | passed hs' ht' =>
      cases hs.symm.trans hs'
      simp [ht, he] at ht'
    | entered hs' _ he' members' rest' =>
      cases hs.symm.trans hs'
      cases he.symm.trans he'
      obtain ⟨rfl, rfl⟩ := ihmembers members'
      obtain ⟨rfl, rfl⟩ := ihrest rest'
      exact ⟨rfl, rfl⟩

end Lineage

/-! What is gathered -/

namespace Merge

theorem Left.of_subset (h : m.Left table n) {m' : Merge} (hv : m.visited ⊆ m'.visited) :
    m'.Left table n := by
  obtain ⟨free, hlen, hfree⟩ := h
  exact ⟨free, hlen, fun t ht => (hfree t ht).imp_right (hv ·)⟩

theorem from_empty : Merge.empty.From table [] :=
  ⟨.nil, fun _ => Iff.rfl⟩

/-- A schema's own part adds what it defines itself. -/
theorem From.own (h : m.From table parts) (fuel : Nat) (s : Schema) :
    (s.own (followIn table fuel) m).From table (parts ++ [s]) := by
  refine ⟨?_, fun n => ?_⟩
  · have hown : Table.Agree (IsTypeOf table)
        (s.properties.elim [] (convertProperties (followIn table fuel)))
        (s.properties.getD []) := by
      cases s.properties with
      | none => exact .nil
      | some ps =>
        rw [Option.elim_some, convertProperties_eq, Option.getD_some, Table.Agree,
          List.forall₂_map_left_iff]
        exact List.forall₂_same.mpr fun p _ => ⟨rfl, fuel, rfl⟩
    rw [definitions_append_singleton]
    exact h.properties.putAll hown
  · rw [requiredNames, List.flatMap_append, List.flatMap_singleton, List.mem_append]
    exact mem_addNames.trans (or_congr_left (h.required n))

end Merge

/-- Gathering from a schema walks through it, and what it gathers is what the schemas on the way
define. There is fuel for the components that have not been entered. -/
def Schema.Walked (table : Table Schema) (fuel : Nat) (s : Schema) : Prop :=
  ∀ (m : Merge) parts, m.Left table fuel → m.From table parts → ∃ parts',
    Lineage table m.visited [s] parts' (gather (followIn table fuel) s m).visited ∧
      (gather (followIn table fuel) s m).From table (parts ++ parts')

theorem walked_gatherAll (h : ∀ s ∈ l, s.Walked table fuel) (hleft : m.Left table fuel)
    (hm : m.From table parts) : ∃ parts',
      Lineage table m.visited l parts' (gatherAll (followIn table fuel) l m).visited ∧
        (gatherAll (followIn table fuel) l m).From table (parts ++ parts') := by
  induction l generalizing m parts with
  | nil => exact ⟨[], .nil, by rwa [List.append_nil]⟩
  | cons s l ih =>
    rw [List.forall_mem_cons] at h
    obtain ⟨parts₁, hfirst, hm₁⟩ := h.1 m parts hleft hm
    obtain ⟨parts₂, hrest, hm₂⟩ := ih h.2 (hleft.of_subset hfirst.grows) hm₁
    exact ⟨parts₁ ++ parts₂, hfirst.append hrest, by rwa [List.append_assoc] at hm₂⟩

theorem walked_members (h : ∀ ss, s.allOf = some ss → ∀ x ∈ ss, x.Walked table fuel)
    (hleft : m.Left table fuel) (hm : m.From table parts) : ∃ parts',
      Lineage table m.visited (s.allOf.getD []) parts' (s.body (followIn table fuel) m).visited ∧
        (s.body (followIn table fuel) m).From table (parts ++ parts' ++ [s]) := by
  rw [Schema.body]
  cases hss : s.allOf with
  | none =>
    refine ⟨[], .nil, ?_⟩
    rw [List.append_nil]
    exact hm.own fuel s
  | some ss =>
    obtain ⟨parts', hwalk, hm'⟩ := walked_gatherAll (h ss hss) hleft hm
    exact ⟨parts', hwalk, hm'.own fuel s⟩

theorem walked_gather
    (hf : ∀ s t (m : Merge) parts, s.target? = some t → m.Left table fuel → m.From table parts →
      ∃ parts', Lineage table m.visited [s] parts' (followIn table fuel t m).visited ∧
        (followIn table fuel t m).From table (parts ++ parts'))
    (s : Schema) : s.Walked table fuel := by
  induction s using Schema.tree_induction with
  | step s properties items members =>
    intro m parts hleft hm
    rw [gather_eq]
    cases hr : s.reference with
    | some r => exact hf s _ m parts (Schema.target?_of_reference hr) hleft hm
    | none =>
      obtain ⟨parts', hwalk, hm'⟩ := walked_members members hleft hm
      refine ⟨parts' ++ [s], .written (Schema.target?_of_written hr) hwalk .nil, ?_⟩
      rwa [List.append_assoc] at hm'

/-- With fuel for the components that are left, following a reference enters them. -/
theorem walked_followIn (fuel : Nat) (s : Schema) (t : String) (m : Merge) (parts : List Schema)
    (hs : s.target? = some t) (hleft : m.Left table fuel) (hm : m.From table parts) :
    ∃ parts', Lineage table m.visited [s] parts' (followIn table fuel t m).visited ∧
      (followIn table fuel t m).From table (parts ++ parts') := by
  induction fuel generalizing s t m parts with
  | zero =>
    obtain ⟨free, hlen, hfree⟩ := hleft
    refine ⟨[], .passed hs ?_ .nil, by rwa [List.append_nil]⟩
    cases he : Table.find? t table with
    | none => exact Or.inr rfl
    | some e =>
      refine Or.inl ((hfree t (Table.mem_keys_of_find? he)).resolve_left ?_)
      simp [List.length_eq_zero_iff.mp (Nat.le_zero.mp hlen)]
  | succ fuel ih =>
    unfold followIn
    split
    · rename_i hnone
      exact ⟨[], .passed hs (Or.inr hnone) .nil, by rwa [List.append_nil]⟩
    · rename_i e he
      split
      · rename_i hv
        exact ⟨[], .passed hs (Or.inl (List.contains_iff_mem.mp hv)) .nil, by rwa [List.append_nil]⟩
      · rename_i hv
        have hv : t ∉ m.visited := fun h => hv (List.contains_iff_mem.mpr h)
        rw [gather_withoutReference]
        obtain ⟨parts', hwalk, hm'⟩ := walked_members (s := e)
          (fun _ _ x _ => walked_gather ih x) (hleft.visit (Table.mem_keys_of_find? he) hv)
          (m := { m with visited := t :: m.visited }) ⟨hm.properties, hm.required⟩
        refine ⟨parts' ++ [e], .entered hs hv he hwalk .nil, ?_⟩
        rwa [List.append_assoc] at hm'

/-- A schema with an allOf is merged from one list of schemas, and gathers what these define. -/
theorem exists_lineage (table : Table Schema) (hr : s.reference = none) : ∃ parts v,
    Lineage table [] [s] parts v ∧
      (s.body (followIn table table.length) .empty).From table parts := by
  have hleft : Merge.empty.Left table table.length :=
    ⟨Table.keys table, by simp [Table.keys], fun t ht => Or.inl ht⟩
  obtain ⟨parts, hwalk, hm⟩ := walked_gather (walked_followIn table.length) s .empty [] hleft
    Merge.from_empty
  rw [gather_of_written hr] at hwalk hm
  exact ⟨parts, _, hwalk, hm⟩

end OpenApi
end SdkSmith
