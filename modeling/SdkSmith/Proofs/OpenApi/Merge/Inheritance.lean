import Mathlib.Logic.Relation
import SdkSmith.Proofs.OpenApi.Merge.Conversion

/-!
What an allOf gathers. Members are followed depth first, each component at most once; what comes out
is what is declared by the schemas that can be reached through allOfs, and nothing else.
-/
namespace SdkSmith.OpenApi

/-- What a schema may declare. -/
inductive Declaration
  | property (name : String)
  | required (name : String)
deriving DecidableEq, Repr

namespace Schema

/-- What a schema declares itself. -/
def declarations (s : Schema) : List Declaration :=
  (Table.keys (s.properties.getD [])).map .property ++ (s.required.getD []).map .required

/-- The schema that a member of an allOf stands for: an entry if it refers to one, or else
itself. -/
def source? (table : Table Schema) (s : Schema) : Option Schema :=
  match s.target? with
  | some name => Table.find? name table
  | none => some s

/-- What some member of the allOf of a schema stands for. -/
def Base (table : Table Schema) (s x : Schema) : Prop :=
  ∃ ss, s.allOf = some ss ∧ ∃ y ∈ ss, y.source? table = some x

/-- The schemas that a schema is made of: itself, and what it extends through members of allOfs.
What is written in an entry counts, even if the entry is itself a reference. -/
def Extends (table : Table Schema) : Schema → Schema → Prop :=
  Relation.ReflTransGen (Base table)

/-- What is declared by the schemas that a schema is made of. -/
def Offers (table : Table Schema) (s : Schema) (a : Declaration) : Prop :=
  ∃ x, Extends table s x ∧ a ∈ x.declarations

end Schema

namespace Merge

/-- The declarations that have been gathered. -/
def declarations (m : Merge) : List Declaration :=
  (Table.keys m.properties).map .property ++ m.required.map .required

/-- Nothing is gathered twice. -/
structure Distinct (m : Merge) : Prop where
  properties : (Table.keys m.properties).Nodup
  required : m.required.Nodup

end Merge

namespace Schema

/-- A search is through with a schema: the schema is as it should be, references in its allOf have
been visited, and with the other members the search is through too. -/
inductive Done (table : Table Schema) (P : Schema → Prop) (visited : List String) : Schema → Prop
  | intro {s : Schema} (self : P s)
      (referred : ∀ ss, s.allOf = some ss → ∀ y ∈ ss, ∀ t, y.target? = some t →
        t ∈ Table.keys table → t ∈ visited)
      (written : ∀ ss, s.allOf = some ss → ∀ y ∈ ss, y.target? = none → Done table P visited y) :
      Done table P visited s

/-- A search is through with a member of an allOf, or has visited it if it is a reference. -/
structure Included (table : Table Schema) (P : Schema → Prop) (visited : List String)
    (s : Schema) : Prop where
  referred : ∀ t, s.target? = some t → t ∈ Table.keys table → t ∈ visited
  written : s.target? = none → s.Done table P visited

/-- From some components that have been visited to more: with those in between a search is
through. -/
structure Covers (table : Table Schema) (P : Schema → Prop) (visited visited' : List String) :
    Prop where
  grows : visited ⊆ visited'
  through : ∀ t ∈ visited', t ∉ visited → ∀ e, Table.find? t table = some e →
    e.Done table P visited'

end Schema

/-- What a schema declares is among what has been gathered. -/
def Merge.Has (m : Merge) (s : Schema) : Prop := s.declarations ⊆ m.declarations

/-- From one merge to a later one nothing is lost, and what is visited in between is gathered. -/
structure Merge.Covers (table : Table Schema) (m m' : Merge) : Prop where
  declared : m.declarations ⊆ m'.declarations
  covers : Schema.Covers table m'.Has m.visited m'.visited

/-- No more than so many components are left to visit. -/
def Merge.Left (table : Table Schema) (n : Nat) (m : Merge) : Prop :=
  ∃ free : List String, free.length ≤ n ∧ ∀ t ∈ Table.keys table, t ∈ free ∨ t ∈ m.visited

variable {follow : Follow} {table : Table Schema} {s x z e : Schema} {m m' m'' : Merge} {n : Nat}
  {t r name : String} {a : Declaration} {P P' : Schema → Prop} {v v' v'' : List String}

namespace Schema

theorem property_mem_declarations :
    .property name ∈ s.declarations ↔ name ∈ Table.keys (s.properties.getD []) := by
  simp [declarations]

theorem required_mem_declarations :
    .required name ∈ s.declarations ↔ name ∈ s.required.getD [] := by
  simp [declarations]

theorem target?_of_reference (h : s.reference = some r) : s.target? = some (targetOf r) := by
  rw [target?, h, Option.map_some]

theorem target?_of_written (h : s.reference = none) : s.target? = none := by
  rw [target?, h, Option.map_none]

theorem source?_of_target (h : s.target? = some t) : s.source? table = Table.find? t table := by
  rw [source?, h]

theorem source?_of_written (h : s.reference = none) : s.source? table = some s := by
  rw [source?, target?_of_written h]

end Schema

namespace Merge

theorem property_mem_declarations :
    .property name ∈ m.declarations ↔ name ∈ Table.keys m.properties := by
  simp [declarations]

theorem required_mem_declarations : .required name ∈ m.declarations ↔ name ∈ m.required := by
  simp [declarations]

theorem mem_addNames {names l : List String} {k : String} :
    k ∈ addNames names l ↔ k ∈ names ∨ k ∈ l := by
  induction l generalizing names with
  | nil => simp [addNames]
  | cons j l ih =>
    rw [addNames, ih, List.mem_cons]
    split
    · rename_i hj
      have hj : j ∈ names := by simpa using hj
      constructor
      · exact Or.imp_right Or.inr
      · rintro (h | rfl | h)
        · exact Or.inl h
        · exact Or.inl hj
        · exact Or.inr h
    · rw [List.mem_append, List.mem_singleton, or_assoc]

theorem nodup_addNames {names : List String} (h : names.Nodup) (l : List String) :
    (addNames names l).Nodup := by
  induction l generalizing names with
  | nil => exact h
  | cons j l ih =>
    rw [addNames]
    split
    · exact ih h
    · rename_i hj
      have hj : j ∉ names := by simpa using hj
      refine ih (List.nodup_append.mpr ⟨h, by simp, ?_⟩)
      rintro k hk _ (_ | ⟨_, ⟨⟩⟩) rfl
      exact hj hk

theorem mem_declarations_own :
    a ∈ (s.own follow m).declarations ↔ a ∈ m.declarations ∨ a ∈ s.declarations := by
  have hkeys : Table.keys (s.properties.elim [] (convertProperties follow)) =
      Table.keys (s.properties.getD []) := by
    cases s.properties with
    | none => rfl
    | some ps => exact keys_convertProperties ps
  cases a with
  | property name =>
    simp only [property_mem_declarations, Schema.property_mem_declarations, Schema.own, add,
      Table.mem_keys_putAll, hkeys]
  | required name =>
    simp only [required_mem_declarations, Schema.required_mem_declarations, Schema.own, add,
      mem_addNames]

theorem Distinct.own (h : m.Distinct) : (s.own follow m).Distinct :=
  ⟨Table.nodup_putAll h.properties, nodup_addNames h.required _⟩

theorem distinct_followIn (fuel : Nat) (target : String) (m : Merge) (hm : m.Distinct) :
    (followIn table fuel target m).Distinct :=
  followIn_preserves (fun _ _ _ => Distinct.own) (fun _ _ h => ⟨h.properties, h.required⟩)
    fuel target m hm

end Merge

namespace Schema

/-! Nothing is gathered but what is offered. -/

theorem Offers.of_base (hb : s.Base table x) (h : x.Offers table a) : s.Offers table a := by
  obtain ⟨y, hxy, hy⟩ := h
  exact ⟨y, .head hb hxy, hy⟩

/-- An entry that is itself a reference offers what it would offer without. -/
theorem Offers.of_withoutReference (h : Offers table { s with reference := none } a) :
    s.Offers table a := by
  obtain ⟨x, hx, ha⟩ := h
  rcases Relation.ReflTransGen.cases_head hx with rfl | ⟨y, hb, hyx⟩
  · exact ⟨s, .refl, ha⟩
  · exact ⟨x, .head hb hyx, ha⟩

theorem offers_of_mem_gatherAll {l : List Schema}
    (h : ∀ x ∈ l, ∀ m, a ∈ (gather follow x m).declarations →
      a ∈ m.declarations ∨ ∃ z, x.source? table = some z ∧ z.Offers table a)
    (ha : a ∈ (gatherAll follow l m).declarations) :
    a ∈ m.declarations ∨ ∃ x ∈ l, ∃ z, x.source? table = some z ∧ z.Offers table a := by
  induction l generalizing m with
  | nil => exact Or.inl ha
  | cons x l ih =>
    rw [List.forall_mem_cons] at h
    rcases ih h.2 ha with ha | ⟨y, hy, hz⟩
    · exact (h.1 m ha).imp_right fun hz => ⟨x, List.mem_cons_self, hz⟩
    · exact Or.inr ⟨y, List.mem_cons_of_mem _ hy, hz⟩

theorem offers_of_mem_gather
    (hf : ∀ t m, a ∈ (follow t m).declarations →
      a ∈ m.declarations ∨ ∃ e, Table.find? t table = some e ∧ e.Offers table a)
    (ha : a ∈ (gather follow s m).declarations) :
    a ∈ m.declarations ∨ ∃ z, s.source? table = some z ∧ z.Offers table a := by
  induction s using tree_induction generalizing m with
  | step s properties items members =>
    rw [gather_eq] at ha
    cases hr : s.reference with
    | some r =>
      simp only [hr] at ha
      rw [source?_of_target (target?_of_reference hr)]
      exact hf _ _ ha
    | none =>
      simp only [hr] at ha
      have hsource : s.source? table = some s := source?_of_written hr
      rcases Merge.mem_declarations_own.mp ha with ha | ha
      · cases hss : s.allOf with
        | none => exact Or.inl (by simpa [hss] using ha)
        | some ss =>
          rw [hss, Option.elim_some] at ha
          rcases offers_of_mem_gatherAll (fun x hx _ => members ss hss x hx) ha with
            ha | ⟨x, hx, z, hz, hza⟩
          · exact Or.inl ha
          · exact Or.inr ⟨s, hsource, hza.of_base ⟨ss, hss, x, hx, hz⟩⟩
      · exact Or.inr ⟨s, hsource, s, .refl, ha⟩

theorem offers_of_mem_followIn (fuel : Nat) (t : String) (m : Merge)
    (ha : a ∈ (followIn table fuel t m).declarations) :
    a ∈ m.declarations ∨ ∃ e, Table.find? t table = some e ∧ e.Offers table a := by
  induction fuel generalizing t m with
  | zero => exact Or.inl ha
  | succ fuel ih =>
    unfold followIn at ha
    split at ha
    · exact Or.inl ha
    · rename_i e he
      split at ha
      · exact Or.inl ha
      · rcases offers_of_mem_gather ih ha with hm | ⟨z, hz, hza⟩
        · exact Or.inl hm
        · cases hz
          exact Or.inr ⟨e, he, hza.of_withoutReference⟩

end Schema

/-! Everything that is offered is gathered. -/

namespace Schema

theorem Done.self (h : s.Done table P v) : P s := by
  cases h with | intro self => exact self

theorem Done.mono (h : s.Done table P v) (hP : ∀ x, P x → P' x) (hv : v ⊆ v') :
    s.Done table P' v' := by
  induction h with
  | intro self referred written ih =>
    refine .intro (hP _ self) ?_ ih
    intro ss hss y hy t ht hk
    exact hv (referred ss hss y hy t ht hk)

theorem Included.mono (h : s.Included table P v) (hP : ∀ x, P x → P' x) (hv : v ⊆ v') :
    s.Included table P' v' :=
  ⟨fun t ht hk => hv (h.referred t ht hk), fun ht => (h.written ht).mono hP hv⟩

theorem Done.of_members (self : P s)
    (h : ∀ ss, s.allOf = some ss → ∀ y ∈ ss, y.Included table P v) : s.Done table P v :=
  .intro self (fun ss hss y hy => (h ss hss y hy).referred)
    fun ss hss y hy => (h ss hss y hy).written

theorem Covers.refl (table : Table Schema) (P : Schema → Prop) (v : List String) :
    Covers table P v v :=
  ⟨List.Subset.refl v, fun _ h hn => absurd h hn⟩

theorem Covers.trans (h : Covers table P v v') (hP : ∀ x, P x → P' x)
    (h' : Covers table P' v' v'') : Covers table P' v v'' := by
  refine ⟨List.Subset.trans h.grows h'.grows, fun t ht hn e he => ?_⟩
  by_cases hv : t ∈ v'
  · exact (h.through t hv hn e he).mono hP h'.grows
  · exact h'.through t ht hv e he

/-- A search that enters a component and is through with it covers it. -/
theorem Covers.enter (h : Covers table P (t :: v) v') (he : Table.find? t table = some e)
    (hd : e.Done table P v') : Covers table P v v' := by
  refine ⟨fun u hu => h.grows (List.mem_cons_of_mem _ hu), fun u hu hn e' he' => ?_⟩
  by_cases hut : u = t
  · subst hut
    rw [he, Option.some.injEq] at he'
    exact he' ▸ hd
  · refine h.through u hu ?_ e' he'
    rw [List.mem_cons, not_or]
    exact ⟨hut, hn⟩

/-- A search that started with nothing visited is through with all that a schema extends. -/
theorem Done.extends (hs : s.Done table P v) (hc : Covers table P [] v)
    (h : Extends table s x) : P x := by
  have hx : x.Done table P v := by
    induction h with
    | refl => exact hs
    | tail _ hb ih =>
      obtain ⟨ss, hss, y, hy, hz⟩ := hb
      rcases ih with ⟨-, referred, written⟩
      cases ht : y.target? with
      | some t =>
        rw [source?_of_target ht] at hz
        have hv := referred ss hss y hy t ht (Table.mem_keys_of_find? hz)
        exact hc.through t hv List.not_mem_nil _ hz
      | none =>
        rw [source?, ht] at hz
        exact Option.some.inj hz ▸ written ss hss y hy ht
  exact hx.self

end Schema

namespace Merge

theorem Has.mono (h : m.declarations ⊆ m'.declarations) (s : Schema) (hs : m.Has s) : m'.Has s :=
  List.Subset.trans hs h

theorem Covers.refl (m : Merge) : m.Covers table m :=
  ⟨List.Subset.refl _, .refl table _ _⟩

theorem Covers.trans (h : m.Covers table m') (h' : m'.Covers table m'') :
    m.Covers table m'' :=
  ⟨List.Subset.trans h.declared h'.declared, h.covers.trans (Has.mono h'.declared) h'.covers⟩

theorem Covers.included (h : m.Covers table m') (hs : s.Included table m.Has m.visited) :
    s.Included table m'.Has m'.visited :=
  hs.mono (Has.mono h.declared) h.covers.grows

theorem Left.mono (h : m.Left table n) (hc : m.Covers table m') : m'.Left table n := by
  obtain ⟨free, hlen, hfree⟩ := h
  exact ⟨free, hlen, fun t ht => (hfree t ht).imp_right (hc.covers.grows ·)⟩

/-- One component fewer is left once another has been visited. -/
theorem Left.visit (h : m.Left table (n + 1)) (hk : t ∈ Table.keys table)
    (ht : t ∉ m.visited) : Left table n { m with visited := t :: m.visited } := by
  obtain ⟨free, hlen, hfree⟩ := h
  have hmem : t ∈ free := (hfree t hk).resolve_right ht
  refine ⟨free.erase t, by rw [List.length_erase_of_mem hmem]; omega, fun u hu => ?_⟩
  by_cases hut : u = t
  · exact Or.inr (hut ▸ List.mem_cons_self)
  · exact (hfree u hu).imp (List.mem_erase_of_ne hut).mpr (List.mem_cons_of_mem _)

theorem covers_own : m.Covers table (s.own follow m) :=
  ⟨fun _ h => mem_declarations_own.mpr (Or.inl h), .refl table _ _⟩

end Merge

namespace Schema

/-- Gathering from a schema covers what it comes to, and the schema. -/
def Covered (table : Table Schema) (n : Nat) (follow : Follow) (s : Schema) : Prop :=
  ∀ m : Merge, m.Left table n → m.Covers table (gather follow s m) ∧
    s.Included table (gather follow s m).Has (gather follow s m).visited

theorem gatherAll_covers {l : List Schema} (h : ∀ x ∈ l, x.Covered table n follow)
    (hm : m.Left table n) : m.Covers table (gatherAll follow l m) ∧ ∀ x ∈ l,
      x.Included table (gatherAll follow l m).Has (gatherAll follow l m).visited := by
  induction l generalizing m with
  | nil => exact ⟨.refl m, by simp⟩
  | cons x l ih =>
    rw [List.forall_mem_cons] at h
    obtain ⟨hx, hix⟩ := h.1 m hm
    obtain ⟨hl, hil⟩ := ih h.2 (hm.mono hx)
    exact ⟨hx.trans hl, List.forall_mem_cons.mpr ⟨hl.included hix, hil⟩⟩

theorem gather_covers
    (hf : ∀ t (m : Merge), m.Left table n → m.Covers table (follow t m) ∧
      (t ∈ Table.keys table → t ∈ (follow t m).visited)) (s : Schema) :
    s.Covered table n follow := by
  induction s using tree_induction with
  | step s properties items members =>
    intro m hm
    rw [gather_eq]
    cases hr : s.reference with
    | some r =>
      have htarget := target?_of_reference hr
      obtain ⟨hc, hv⟩ := hf (targetOf r) m hm
      refine ⟨hc, fun t ht => ?_, fun h => ?_⟩
      · rw [htarget, Option.some.injEq] at ht
        exact ht ▸ hv
      · rw [htarget] at h
        cases h
    | none =>
      obtain ⟨hc, hi⟩ : m.Covers table (s.allOf.elim m (gatherAll follow · m)) ∧
          ∀ ss, s.allOf = some ss → ∀ x ∈ ss, x.Included table
            (s.allOf.elim m (gatherAll follow · m)).Has
            (s.allOf.elim m (gatherAll follow · m)).visited := by
        cases hss : s.allOf with
        | none => exact ⟨.refl m, by simp⟩
        | some ss =>
          obtain ⟨hc, hi⟩ := gatherAll_covers (members ss hss) hm
          exact ⟨hc, by rintro _ ⟨⟩; exact hi⟩
      have hhas : (s.body follow m).Has s := fun a ha =>
        Merge.mem_declarations_own.mpr (Or.inr ha)
      refine ⟨hc.trans Merge.covers_own, fun t ht => ?_, fun _ => .of_members hhas ?_⟩
      · rw [target?_of_written hr] at ht
        cases ht
      · exact fun ss hss x hx => Merge.covers_own.included (hi ss hss x hx)

theorem followIn_covers (fuel : Nat) (t : String) (m : Merge) (hm : m.Left table fuel) :
    m.Covers table (followIn table fuel t m) ∧
      (t ∈ Table.keys table → t ∈ (followIn table fuel t m).visited) := by
  induction fuel generalizing t m with
  | zero =>
    obtain ⟨free, hlen, hfree⟩ := hm
    refine ⟨.refl m, fun hk => (hfree t hk).resolve_left ?_⟩
    simp [List.length_eq_zero_iff.mp (Nat.le_zero.mp hlen)]
  | succ fuel ih =>
    unfold followIn
    split
    · rename_i hnone
      refine ⟨.refl m, fun hk => ?_⟩
      rw [← Table.find?_isSome, hnone] at hk
      cases hk
    · rename_i e he
      split
      · rename_i hv
        exact ⟨.refl m, fun _ => by simpa using hv⟩
      · rename_i hv
        have hv : t ∉ m.visited := by simpa using hv
        obtain ⟨⟨hdeclared, hc⟩, hi⟩ := gather_covers ih { e with reference := none } _
          (hm.visit (Table.mem_keys_of_find? he) hv)
        rcases hi.written rfl with ⟨self, referred, written⟩
        exact ⟨⟨hdeclared, hc.enter he (.intro self referred written)⟩,
          fun _ => hc.grows List.mem_cons_self⟩

/-- What an allOf gathers is exactly what is offered. -/
theorem mem_declarations_gather (hr : s.reference = none) :
    a ∈ (gather (followIn table table.length) s .empty).declarations ↔ s.Offers table a := by
  constructor
  · intro ha
    rcases offers_of_mem_gather (offers_of_mem_followIn table.length) ha with ha | ⟨z, hz, hza⟩
    · simp [Merge.declarations, Merge.empty, Table.keys] at ha
    · rw [source?_of_written hr, Option.some.injEq] at hz
      exact hz ▸ hza
  · rintro ⟨x, hx, ha⟩
    have hleft : Merge.empty.Left table table.length :=
      ⟨Table.keys table, by simp [Table.keys], fun t ht => Or.inl ht⟩
    obtain ⟨hc, hi⟩ := gather_covers (followIn_covers table.length) s .empty hleft
    exact (hi.written (target?_of_written hr)).extends hc.covers hx ha

end Schema

end SdkSmith.OpenApi
