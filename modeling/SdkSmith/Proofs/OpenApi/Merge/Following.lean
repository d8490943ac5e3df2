import SdkSmith.Proofs.OpenApi.Merge.Chains

/-!
Following the references of allOfs ends. If no conversion comes back to itself, then no way leads
through a component twice: the limit on the number of references in a row is not reached, and what
is computed is what the rules derive.
-/
namespace SdkSmith.OpenApi

open Relation

namespace Schema

/-- A member of the allOf of a schema refers to an entry. -/
def Refers (s : Schema) (t : String) : Prop :=
  ∃ ss, s.allOf = some ss ∧ ∃ y ∈ ss, y.target? = some t

/-- The entries that are met by gathering from a schema. -/
def Meets (table : Table Schema) (s : Schema) (t : String) : Prop :=
  t ∈ Table.keys table ∧ ∃ x, Extends table s x ∧ x.Refers t

/-- The entries that are met by converting a schema. -/
def Uses (table : Table Schema) (s : Schema) (t : String) : Prop :=
  ∃ y, ReflTransGen (Leads table) s y ∧ y.reference = none ∧ y.Meets table t

/-- Gathering from a schema enters no entries but those there is room for, and neither does
converting the properties that it comes to. -/
structure Room (table : Table Schema) (room visited : List String) (s : Schema) : Prop where
  met : ∀ t, s.Meets table t → t ∈ room ∨ t ∈ visited
  ends : ∀ x, Extends table s x → ∀ ps, x.properties = some ps → ∀ p ∈ ps, p.2.Ends table
  used : ∀ x, Extends table s x → ∀ ps, x.properties = some ps → ∀ p ∈ ps, ∀ t,
    p.2.Uses table t → t ∈ room

end Schema

variable {follow : Follow} {table : Table Schema} {s x e : Schema} {m : Merge}
  {room visited visited' : List String} {t : String} {n : Nat}

namespace Schema

theorem Uses.of_leads (hx : s.Leads table x) (h : x.Uses table t) : s.Uses table t := by
  obtain ⟨y, hy, hw, hm⟩ := h
  exact ⟨y, .head hx hy, hw, hm⟩

theorem Meets.of_base (hb : s.Base table x) (h : x.Meets table t) : s.Meets table t := by
  obtain ⟨hk, y, hy, hr⟩ := h
  exact ⟨hk, y, .head hb hy, hr⟩

theorem Refers.base (h : s.Refers t) (he : Table.find? t table = some e) : s.Base table e := by
  obtain ⟨ss, hss, y, hy, ht⟩ := h
  exact ⟨ss, hss, y, hy, (source?_of_target ht).trans he⟩

theorem Refers.meets (h : s.Refers t) (hk : t ∈ Table.keys table) : s.Meets table t :=
  ⟨hk, s, .refl, h⟩

/-- Whoever meets an entry converts the properties that are written behind it. -/
theorem Meets.leads {ps : List (String × Schema)} {p : String × Schema} (h : s.Meets table t)
    (hs : s.reference = none) (he : Table.find? t table = some e) (hx : Extends table e x)
    (hps : x.properties = some ps) (hp : p ∈ ps) : s.Leads table p.2 := by
  obtain ⟨-, y, hy, hr⟩ := h
  have hmade : Extends table s x := (hy.tail (hr.base he)).trans hx
  refine .property hs (fun hall => ?_) hmade hps hp
  obtain ⟨ss, hss, -⟩ := hr
  rw [← hy.eq_of_allOf hall, hall] at hss
  cases hss

namespace Room

theorem mono (h : s.Room table room visited) (hv : visited ⊆ visited') :
    s.Room table room visited' :=
  ⟨fun t ht => (h.met t ht).imp_right (hv ·), h.ends, h.used⟩

theorem base (h : s.Room table room visited) (hb : s.Base table x) :
    x.Room table room visited :=
  ⟨fun t ht => h.met t (ht.of_base hb), fun y hy => h.ends y (.head hb hy),
    fun y hy => h.used y (.head hb hy)⟩

/-- Where an entry is entered, it takes its own room. None of the properties behind it needs that
again, since it would be converted on the way to itself. -/
theorem enter (h : s.Room table room visited) (hr : s.Refers t)
    (he : Table.find? t table = some e) : e.Room table (room.erase t) (t :: visited) := by
  have hb := hr.base he
  refine ⟨fun u hu => ?_, fun x hx => h.ends x (.head hb hx), fun x hx ps hps p hp u hu => ?_⟩
  · by_cases hut : u = t
    · exact Or.inr (hut ▸ List.mem_cons_self)
    · exact (h.met u (hu.of_base hb)).imp (List.mem_erase_of_ne hut).mpr (List.mem_cons_of_mem _)
  · refine (List.mem_erase_of_ne ?_).mpr (h.used x (.head hb hx) ps hps p hp u hu)
    rintro rfl
    obtain ⟨y, hy, hw, hm⟩ := hu
    have hback : y.Leads table p.2 := hm.leads hw he hx hps hp
    exact h.ends x (.head hb hx) ps hps p hp _ .refl (TransGen.tail' hy hback)

/-- A conversion starts with room for all that it uses. -/
theorem of_ends (hs : s.reference = none) (hall : s.allOf ≠ none) (he : s.Ends table)
    (hu : ∀ t, s.Uses table t → t ∈ room) : s.Room table room [] := by
  have hleads : ∀ x, Extends table s x → ∀ ps, x.properties = some ps → ∀ p ∈ ps,
      s.Leads table p.2 :=
    fun x hx ps hps p hp => .property hs (fun h => absurd h hall) hx hps hp
  exact ⟨fun t ht => Or.inl (hu t ⟨s, .refl, hs, ht⟩),
    fun x hx ps hps p hp => he.leads (hleads x hx ps hps p hp),
    fun x hx ps hps p hp t ht => hu t (ht.of_leads (hleads x hx ps hps p hp))⟩

end Room

/-- Following references comes to what the rules say, wherever there is so much room. -/
def Followed (table : Table Schema) (n : Nat) (follow : Follow) : Prop :=
  ∀ (room : List String) m s x t, room.length ≤ n → Room table room m.visited s → s.Refers t →
    x.target? = some t → Gathers table x m (follow t m)

/-- Converting a schema comes to what the rules say, if there is so much room. -/
def Converted (table : Table Schema) (n : Nat) (follow : Follow) (s : Schema) : Prop :=
  ∀ (room : List String) name, room.length ≤ n → s.Ends table →
    (∀ t, s.Uses table t → t ∈ room) → Converts table name s (convertWith follow name s)

/-- Merging what is written in a schema comes to what the rules say, if there is so much room. -/
def Merged (table : Table Schema) (n : Nat) (follow : Follow) (s : Schema) : Prop :=
  ∀ (room : List String) m, room.length ≤ n → s.Room table room m.visited →
    Merges table s m (s.body follow m)

theorem convertsAll_of_forall {ps : List (String × Schema)}
    (h : ∀ p ∈ ps, Converts table p.1 p.2 (convertWith follow p.1 p.2)) :
    ConvertsAll table ps (convertProperties follow ps) := by
  induction ps with
  | nil => exact .nil
  | cons p ps ih =>
    exact .cons (h p List.mem_cons_self) (ih fun q hq => h q (List.mem_cons_of_mem _ hq))

theorem gathersAll_of_merged (hf : Followed table n follow)
    (hv : ∀ s m, m.visited ⊆ (gather follow s m).visited) {ss l : List Schema}
    (hss : s.allOf = some ss) (hl : l ⊆ ss) (h : ∀ x ∈ l, x.Merged table n follow)
    (hn : room.length ≤ n) (hroom : s.Room table room m.visited) :
    GathersAll table l m (gatherAll follow l m) := by
  induction l generalizing m with
  | nil => exact .nil
  | cons x l ih =>
    rw [List.cons_subset] at hl
    rw [List.forall_mem_cons] at h
    have hx : Gathers table x m (gather follow x m) := by
      rw [gather_eq]
      cases hr : x.reference with
      | some r =>
        have ht := target?_of_reference hr
        exact hf room m s x _ hn hroom ⟨ss, hss, x, hl.1, ht⟩ ht
      | none =>
        have hb : s.Base table x := ⟨ss, hss, x, hl.1, source?_of_written hr⟩
        exact .written (target?_of_written hr) (h.1 room m hn (hroom.base hb))
    exact .cons hx (ih hl.2 h.2 (hroom.mono (hv x m)))

theorem merged_of_parts (hf : Followed table n follow)
    (hv : ∀ s m, m.visited ⊆ (gather follow s m).visited)
    (properties : ∀ ps, s.properties = some ps → ∀ p ∈ ps, p.2.Converted table n follow)
    (members : ∀ ss, s.allOf = some ss → ∀ x ∈ ss, x.Merged table n follow) :
    s.Merged table n follow := by
  intro room m hn hroom
  have hprops : ConvertsAll table (s.properties.getD [])
      (s.properties.elim [] (convertProperties follow)) := by
    cases hps : s.properties with
    | none => exact .nil
    | some ps =>
      refine convertsAll_of_forall fun p hp => ?_
      exact properties ps hps p hp room p.1 hn (hroom.ends s .refl ps hps p hp)
        (hroom.used s .refl ps hps p hp)
  have hall : GathersAll table (s.allOf.getD []) m (s.allOf.elim m (gatherAll follow · m)) := by
    cases hss : s.allOf with
    | none => exact .nil
    | some ss =>
      exact gathersAll_of_merged hf hv hss (List.Subset.refl ss) (members ss hss) hn hroom
  exact .intro hall hprops

theorem converted_of_parts (hs : s.Merged table n follow)
    (properties : ∀ ps, s.properties = some ps → ∀ p ∈ ps, p.2.Converted table n follow)
    (items : ∀ i, s.items = some i → i.Converted table n follow) :
    s.Converted table n follow := by
  intro room name hn he hu
  rw [convertWith_eq]
  cases hr : s.reference with
  | some r => exact .reference hr
  | none =>
    -- what is converted on the way uses no more than the schema does
    have hpart : ∀ {x}, s.Leads table x → x.Converted table n follow → ∀ name,
        Converts table name x (convertWith follow name x) := fun hx h name =>
      h room name hn (he.leads hx) fun t ht => hu t (ht.of_leads hx)
    refine .written hr ?_
    unfold core
    cases hss : s.allOf with
    | some ss =>
      have h := hs room .empty hn (.of_ends hr (by simp [hss]) he hu)
      rw [body, hss] at h
      exact .merged (by simp [hss]) h
    | none =>
      by_cases ht : s.primaryType? = some "array"
      · simp only [if_pos ht]
        cases hi : s.items with
        | none => exact .listOfAny hss ht hi
        | some i => exact .list hss ht hi (hpart (.items hr hss ht hi) (items i hi) _)
      · simp only [if_neg ht]
        cases hps : s.properties with
        | none => exact .value hss ht hps
        | some ps =>
          refine .object hss ht hps (convertsAll_of_forall fun p hp => ?_)
          exact hpart (.property hr (fun _ => ht) .refl hps hp) (properties ps hps p hp) _

/-- One induction for conversion and merging, since each runs through the other. -/
theorem converted_and_merged (hf : Followed table n follow)
    (hv : ∀ s m, m.visited ⊆ (gather follow s m).visited) (s : Schema) :
    s.Converted table n follow ∧ s.Merged table n follow := by
  induction s using tree_induction with
  | step s properties items members =>
    have hprops : ∀ ps, s.properties = some ps → ∀ p ∈ ps, p.2.Converted table n follow :=
      fun ps hps p hp => (properties ps hps p hp).1
    have hmerged : s.Merged table n follow :=
      merged_of_parts hf hv hprops fun ss hss x hx => (members ss hss x hx).2
    exact ⟨converted_of_parts hmerged hprops fun i hi => (items i hi).1, hmerged⟩

theorem visited_subset_gather (fuel : Nat) (s : Schema) (m : Merge) :
    m.visited ⊆ (gather (followIn table fuel) s m).visited :=
  gather_preserves (P := fun m' => m.visited ⊆ m'.visited) (fun _ _ h => h)
    (followIn_preserves (fun _ _ _ h => h) (fun _ _ h _ hu => List.mem_cons_of_mem _ (h hu)) fuel)
    s (List.Subset.refl _)

/-- With room for no more entries than references may be followed, the limit is not reached. -/
theorem followed_followIn (table : Table Schema) (fuel : Nat) :
    Followed table fuel (followIn table fuel) := by
  induction fuel with
  | zero =>
    intro room m s x t hn hroom hr ht
    cases he : Table.find? t table with
    | none => exact .missing ht he
    | some e =>
      have hk : t ∈ Table.keys table := Table.mem_keys_of_find? he
      refine .visited ht he ((hroom.met t (hr.meets hk)).resolve_left ?_)
      simp [List.length_eq_zero_iff.mp (Nat.le_zero.mp hn)]
  | succ fuel ih =>
    intro room m s x t hn hroom hr ht
    unfold followIn
    cases he : Table.find? t table with
    | none => exact .missing ht he
    | some e =>
      by_cases hv : t ∈ m.visited
      · simp only [List.contains_iff_mem.mpr hv, if_true]
        exact .visited ht he hv
      · have hk : t ∈ Table.keys table := Table.mem_keys_of_find? he
        have hmem : t ∈ room := (hroom.met t (hr.meets hk)).resolve_right hv
        have hlen : (room.erase t).length ≤ fuel := by
          rw [List.length_erase_of_mem hmem]
          omega
        simp only [List.contains_iff_mem, hv, if_false, gather_withoutReference]
        have he' := (converted_and_merged ih (visited_subset_gather fuel) e).2
        exact .entered ht he hv
          (he' _ { m with visited := t :: m.visited } hlen (hroom.enter hr he))

/-- The limit is not reached in a conversion that ends: what is computed is derived. -/
theorem Ends.gathers (he : s.Ends table) (hr : s.reference = none) (hall : s.allOf.isSome) :
    Gathers table s .empty (gather (followIn table table.length) s .empty) := by
  have hroom : s.Room table (Table.keys table) Merge.empty.visited := by
    refine .of_ends hr (Option.isSome_iff_ne_none.mp hall) he fun t ht => ?_
    obtain ⟨y, -, -, hk, -⟩ := ht
    exact hk
  have hs := (converted_and_merged (followed_followIn table table.length)
    (visited_subset_gather table.length) s).2
  rw [gather_of_written hr]
  exact .written (target?_of_written hr) (hs _ .empty (by simp [Table.keys]) hroom)

/-- Gathering from a schema ends exactly if no conversion on the way comes back to itself. -/
theorem gathers_iff_ends (hr : s.reference = none) (hall : s.allOf.isSome) :
    (∃ m, Gathers table s .empty m) ↔ s.Ends table := by
  constructor
  · rintro ⟨m, h⟩
    cases h with
    | written _ h => exact .of_done hall h.ends.1 h.ends.2
    | missing ht => simp [target?_of_written hr] at ht
    | visited ht => simp [target?_of_written hr] at ht
    | entered ht => simp [target?_of_written hr] at ht
  · exact fun he => ⟨_, he.gathers hr hall⟩

end Schema

/-- What a schema with an allOf becomes, if no conversion on the way comes back to itself. Gathering
from it by the rules ends, with one result. This has the properties and the required names of all
schemas that it is made of, each once, and no others. The properties that it declares itself are
its own, whatever is inherited under their names. -/
theorem convertSchema_merges (hr : s.reference = none) (hall : s.allOf.isSome)
    (he : s.Ends table) (name : String) : ∃ m : Merge,
      (∀ m', s.Gathers table .empty m' ↔ m' = m) ∧
      (convertSchema table name s).properties = m.properties ∧
      (convertSchema table name s).required = .properties m.required ∧
      (Table.keys m.properties).Nodup ∧
      (∀ n, n ∈ Table.keys m.properties ↔
        ∃ x, s.Extends table x ∧ n ∈ Table.keys (x.properties.getD [])) ∧
      m.required.Nodup ∧
      (∀ n, n ∈ m.required ↔ ∃ x, s.Extends table x ∧ n ∈ x.required.getD []) ∧
      ∀ ps, s.properties = some ps → (Table.keys ps).Nodup → ∀ p ∈ ps,
        Table.find? p.1 m.properties = some (convertSchema table p.1 p.2) := by
  obtain ⟨ss, hss⟩ := Option.isSome_iff_exists.mp hall
  have hbody : gather (followIn table table.length) s .empty =
      s.body (followIn table table.length) .empty := gather_of_written hr
  have hderived := he.gathers hr hall
  have hdistinct : (gather (followIn table table.length) s .empty).Distinct :=
    gather_preserves (fun _ _ => Merge.Distinct.own) (Merge.distinct_followIn table.length) s
      ⟨List.nodup_nil, List.nodup_nil⟩
  have hconvert : (convertSchema table name s).properties =
      (s.body (followIn table table.length) .empty).properties ∧
      (convertSchema table name s).required =
        .properties (s.body (followIn table table.length) .empty).required := by
    rw [convertSchema, convertWith_eq, hr, Schema.body, hss]
    simp only [Schema.core, hss, Api.Schema.object, Option.elim_some, and_self]
  refine ⟨gather (followIn table table.length) s .empty,
    fun m' => ⟨fun h => h.unique hderived, fun h => h ▸ hderived⟩, hbody ▸ hconvert.1,
    hbody ▸ hconvert.2, hdistinct.properties, fun n => ?_, hdistinct.required, fun n => ?_,
    fun ps hps hk p hp => ?_⟩
  · rw [← Merge.property_mem_declarations, Schema.mem_declarations_gather hr]
    simp only [Schema.Offers, Schema.property_mem_declarations]
  · rw [← Merge.required_mem_declarations, Schema.mem_declarations_gather hr]
    simp only [Schema.Offers, Schema.required_mem_declarations]
  · rw [hbody, Schema.body, Schema.own, Merge.add, hps, Option.elim_some]
    refine Table.find?_putAll (by rwa [keys_convertProperties]) ?_
    rw [convertProperties_eq]
    exact List.mem_map_of_mem hp

/-- Components whose allOfs lead to each other, and to a third one on two ways. -/
def staff : Table Schema :=
  [("Entity", { Schema.objectOf [("id", .text), ("name", .text)] with required := some ["id"] }),
    ("Person", { Schema.blank with
      allOf := some [.refTo "Entity", .refTo "Employee"], properties := some [("mail", .text)] }),
    ("Employee", { Schema.blank with
      allOf := some [.refTo "Person", .refTo "Entity"], properties := some [("id", .text)] })]

theorem convertSchema_staff_merges : ∃ s, Table.find? "Employee" staff = some s ∧
    s.reference = none ∧ s.allOf.isSome ∧ s.Ends staff ∧
    Table.keys (convertSchema staff "Employee" s).properties = ["id", "name", "mail"] ∧
    ∃ m : Merge,
      (∀ m', s.Gathers staff .empty m' ↔ m' = m) ∧
      (convertSchema staff "Employee" s).properties = m.properties ∧
      (convertSchema staff "Employee" s).required = .properties m.required ∧
      (Table.keys m.properties).Nodup ∧
      (∀ n, n ∈ Table.keys m.properties ↔
        ∃ x, s.Extends staff x ∧ n ∈ Table.keys (x.properties.getD [])) ∧
      m.required.Nodup ∧
      (∀ n, n ∈ m.required ↔ ∃ x, s.Extends staff x ∧ n ∈ x.required.getD []) ∧
      ∀ ps, s.properties = some ps → (Table.keys ps).Nodup → ∀ p ∈ ps,
        Table.find? p.1 m.properties = some (convertSchema staff p.1 p.2) := by
  have hends : staff[2].2.Ends staff := .of_flat rfl (by decide) (by decide)
  exact ⟨_, rfl, rfl, rfl, hends, by decide +kernel, convertSchema_merges rfl rfl hends "Employee"⟩

end SdkSmith.OpenApi
