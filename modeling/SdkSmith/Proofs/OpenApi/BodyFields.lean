import SdkSmith.Proofs.OpenApi.Closed
import SdkSmith.Proofs.OpenApi.Hoist.Sharing

/-!
Which fields a request sends when its body is written inline. They are read from the entry that
stands in for the body: its own properties, which are those of the body, and whatever its allOf
brings with it, which signatures do not tell.
-/
namespace SdkSmith.OpenApi

/-- An object that is written out, with some property and without an allOf. -/
structure Schema.WrittenOut (s : Schema) (ps : List (String × Schema)) : Prop where
  reference : s.reference = none
  allOf : s.allOf = none
  type : s.primaryType? = none ∨ s.primaryType? = some "object"
  properties : s.properties = some ps
  nonempty : ps ≠ []

/-- The names of the properties that a schema has from its allOf. -/
def Schema.inherited (table : Table Schema) (s : Schema) : List String :=
  s.allOf.elim [] fun ss =>
    Table.keys (gatherAll (followIn table table.length) ss .empty).properties

/-- The component that stands in for an inline schema: the first one of its signature. -/
def Document.lookalike? (d : Document) (s : Schema) : Option (String × Schema) :=
  List.find? (fun p => p.2.signature == s.signature) d.components.schemas

variable {table : Table Schema} {s e : Schema} {ps : List (String × Schema)} {name n : String}
  {d : Document} {o : Operation} {path : String} {item : PathItem} {method : Api.HttpMethod}
  {h : Hoard}

namespace Schema.WrittenOut

theorem needsName (hs : s.WrittenOut ps) : s.needsName = true := by
  obtain ⟨p, ps', rfl⟩ := List.exists_cons_of_ne_nil hs.nonempty
  simp [Schema.needsName, isInlineObject, hs.reference, hs.allOf, hs.properties]

theorem layer_type (hs : s.WrittenOut ps) : s.layer.type = some "object" := by
  rcases hs.type with ht | ht <;> simp [layer, ht, hs.properties]

/-- What has the layer of an object that is written out is an object with its properties. -/
theorem of_layer (hs : s.WrittenOut ps) (hlayer : e.layer = s.layer) :
    e.reference = none ∧ e.primaryType? ≠ some "array" ∧ ∃ qs, e.properties = some qs ∧ qs ≠ [] ∧
      ∀ name, name ∈ Table.keys qs ↔ name ∈ Table.keys ps := by
  have hkeys (name : String) :
      name ∈ Table.keys (e.properties.getD []) ↔ name ∈ Table.keys ps := by
    rw [← mem_layer_properties, hlayer, mem_layer_properties, hs.properties, Option.getD_some]
  refine ⟨(congrArg Layer.reference hlayer).trans hs.reference, ?_, ?_⟩
  · intro harray
    have htype := hs.layer_type
    rw [← hlayer, layer, harray, Option.some_or] at htype
    simp at htype
  · obtain ⟨p, ps', rfl⟩ := List.exists_cons_of_ne_nil hs.nonempty
    have hp := (hkeys p.1).mpr List.mem_cons_self
    cases hqs : e.properties with
    | none => simp [hqs] at hp
    | some qs =>
      rw [hqs] at hkeys hp
      refine ⟨qs, rfl, ?_, hkeys⟩
      rintro rfl
      cases hp

end Schema.WrittenOut

theorem lookup_ofTable (t : Table Schema) (g : Signature) : (Hoard.ofTable t).known.lookup g =
    (List.find? (fun p => p.2.signature == g) t).map (·.1) := by
  induction t with
  | nil => rfl
  | cons p t ih =>
    simp only [Hoard.ofTable, List.map_cons, List.lookup_cons, List.find?_cons] at ih ⊢
    rw [ih, Bool.beq_comm]
    cases p.2.signature == g <;> rfl

/-- The members of an object with properties: its own, and inherited ones. -/
theorem mem_convertSchema (hr : e.reference = none) (ht : e.primaryType? ≠ some "array")
    (hps : e.properties = some ps) :
    name ∈ (convertSchema table n e).properties.map (·.2.name) ↔
      name ∈ e.inherited table ∨ name ∈ Table.keys ps := by
  have hprops : (convertSchema table n e).properties =
      (e.core (followIn table table.length) n).properties := by
    rw [convertSchema, convertWith_eq, hr]
  rw [hprops, Schema.core, Schema.inherited]
  cases e.allOf with
  | none =>
    simp only [if_neg ht, hps, Api.Schema.object, Option.elim_none, List.not_mem_nil, false_or]
    rw [convertProperties_eq]
    simp [Table.keys]
  | some ss =>
    have hnamed : (e.own (followIn table table.length)
        (gatherAll (followIn table table.length) ss .empty)).Named :=
      Schema.own_named (gatherAll_named _ ss)
    have hmap : ∀ m : Merge, m.Named → m.properties.map (·.2.name) = Table.keys m.properties :=
      fun m hm => List.map_congr_left hm
    simp only [Api.Schema.object, Option.elim_some, hmap _ hnamed]
    rw [Schema.own, Merge.add, hps, Option.elim_some, Table.mem_keys_putAll,
      keys_convertProperties]

theorem mem_bodyParameters (hn : Table.find? n table = some e) (hr : e.reference = none)
    (ht : e.primaryType? ≠ some "array") (hps : e.properties = some ps) (hne : ps ≠ []) :
    name ∈ (bodyParameters table (.refTo n)).map (·.name) ↔
      name ∈ e.inherited table ∨ name ∈ Table.keys ps := by
  have htarget : ((Schema.refTo n).target?.bind fun n => Table.find? n table).getD
      (Schema.refTo n) = e := by
    rw [target?_refTo, Option.bind_some, hn, Option.getD_some]
  have hobject : (convertSchema table "data" e).isObject = true := by
    obtain ⟨p, ps', rfl⟩ := List.exists_cons_of_ne_nil hne
    have hmem : p.1 ∈ (convertSchema table "data" e).properties.map (·.2.name) :=
      (mem_convertSchema hr ht hps).mpr (Or.inr List.mem_cons_self)
    cases hprops : (convertSchema table "data" e).properties with
    | nil => simp [hprops] at hmem
    | cons q qs => simp [Api.Schema.isObject, hprops]
  rw [← mem_convertSchema hr ht hps (n := "data"), bodyParameters]
  simp only [htarget, hobject, if_true, List.map_map]
  rfl

theorem bodyParameters_convert {c : Components} {e : Api.Endpoint}
    (h : o.convert c path item method = .ok e) :
    e.bodyParameters = match o.requestSchema? with
      | some s => bodyParameters c.schemas s
      | none => [] := by
  obtain ⟨ps, -, h⟩ := bind_eq_ok.mp h
  cases h
  rfl

/-- A description has an endpoint for each operation of the normal form, whose body parameters come
from the schema of the request. -/
theorem describe_requestSchema {a : Api.Description} (ha : d.describe = .ok a) :
    ∃ d', d.normalize = .ok d' ∧ ∀ (i : Nat) path item method o,
      d'.operations[i]? = some (path, item, method, o) → ∃ e, a.endpoints[i]? = some e ∧
        e.bodyParameters = match o.requestSchema? with
          | some s => bodyParameters d'.components.schemas s
          | none => [] := by
  obtain ⟨d', title, about, hd, hconvert⟩ := describe_eq_ok ha
  obtain ⟨_, -, hrest⟩ := bind_eq_ok.mp hconvert
  obtain ⟨es, hes, hrest⟩ := bind_eq_ok.mp hrest
  cases hrest
  refine ⟨d', hd, fun i path item method o ho => ?_⟩
  obtain ⟨e, he, hconv⟩ := exists_getElem?_of_mapM hes ho
  exact ⟨e, he, bodyParameters_convert hconv⟩

theorem lookalike_entry (hg : d.Gathers h) {p : String × Schema} (hp : d.lookalike? s = some p) :
    h.entryOf s.signature = p.1 := by
  have hknown : (Hoard.ofTable d.components.schemas).known.lookup s.signature = some p.1 := by
    rw [lookup_ofTable]
    exact Option.map_eq_some_iff.mpr ⟨p, hp, rfl⟩
  exact Hoard.entryOf_of_lookup (Hoard.Adds.keeps hg hknown)

/-- The entry of an object that no component looks like was written inline too. -/
theorem allOf_of_added (hg : d.Gathers h) (he : Table.find? n h.table = some e)
    (hsig : e.signature = s.signature) (hs : s.layer.type = some "object")
    (hnone : d.lookalike? s = none) : e.allOf = none := by
  obtain ⟨new, htable, hnew, -⟩ := Hoard.Adds.appends hg
  have hmem := Table.mem_of_find? he
  rw [htable] at hmem
  rcases List.mem_append.mp hmem with hmem | hmem
  · have := List.find?_eq_none.mp hnone _ hmem
    simp [hsig] at this
  · obtain ⟨x, hx, -, origin, rfl⟩ := hnew _ hmem
    rw [Hoard.signature_withOrigin] at hsig
    have htype := congrArg Layer.type (Schema.layer_of_signature hsig)
    have hinline : x.isInlineObject = true := by
      rcases List.mem_append.mp hx with hx | hx
      · rcases (Bool.or_eq_true _ _).mp (List.mem_filter.mp hx).2 with hx | hx
        · exact hx
        · rw [hs, Schema.layer, Schema.primaryType?_of_list hx, Option.some_or] at htype
          simp at htype
      · obtain ⟨p, -, hx⟩ := List.mem_flatMap.mp hx
        exact Schema.isInlineObject_of_moved hx
    simp only [Schema.isInlineObject, Bool.and_eq_true, Option.isNone_iff_eq_none] at hinline
    exact hinline.1.2

/-- The fields of an endpoint whose body is written out: those of the body, and what its entry
inherits. -/
theorem mem_bodyParameters_settle {c : Components} {e : Api.Endpoint}
    (hk : (Table.keys d.components.schemas).Nodup) (hg : d.Gathers h)
    (hs : s.WrittenOut ps) (ho : o.requestSchema? = some s) (hmoved : s ∈ d.moved h.table)
    (hc : c.schemas = settleEntries h.entryOf h.table)
    (he : (o.settle h.entryOf).convert c path item method = .ok e) :
    ∃ x, Table.find? (h.entryOf s.signature) c.schemas = some x ∧
      (d.lookalike? s = none → x.allOf = none) ∧
      ∀ name, name ∈ e.bodyParameters.map (·.name) ↔
        name ∈ x.inherited c.schemas ∨ name ∈ Table.keys ps := by
  obtain ⟨-, x, hx, hsig⟩ := hg.entry hk hmoved
  have hfind : Table.find? (h.entryOf s.signature) c.schemas =
      some (x.settle h.entryOf .entry) := by
    rw [hc, find?_settleEntries, hx, Option.map_some]
  have hlayer : (x.settle h.entryOf .entry).layer = s.layer :=
    (Schema.layer_settle _ x).trans (Schema.layer_of_signature hsig)
  obtain ⟨hr, ht, qs, hqs, hne, hkeys⟩ := hs.of_layer hlayer
  refine ⟨_, hfind, fun hnone => ?_, fun name => ?_⟩
  · rw [Schema.settle_entry, Schema.settleInside, allOf_of_added hg hx hsig hs.layer_type hnone]
    rfl
  · rw [bodyParameters_convert he, Operation.requestSchema?_settle, ho, Option.map_some,
      settleBody, if_pos hs.needsName, ← hkeys]
    exact mem_bodyParameters hfind hr ht hqs hne

/-- The fields sent are those written in an inline body, exactly if the component that looks like
the body has no others from its allOf. -/
theorem describe_bodyParameters {a : Api.Description} {i : Nat}
    (hk : (Table.keys d.components.schemas).Nodup) (ha : d.describe = .ok a)
    (ho : d.operations[i]? = some (path, item, method, o)) (hbody : o.requestSchema? = some s)
    (hs : s.WrittenOut ps) : ∃ d' e, d.normalize = .ok d' ∧ a.endpoints[i]? = some e ∧
      ((∀ name, name ∈ e.bodyParameters.map (·.name) ↔ name ∈ Table.keys ps) ↔
        ∀ p, d.lookalike? s = some p →
          ∀ c, Table.find? p.1 d'.components.schemas = some c →
            ∀ name ∈ c.inherited d'.components.schemas, name ∈ Table.keys ps) := by
  obtain ⟨d', title, about, hd, hconvert⟩ := describe_eq_ok ha
  obtain ⟨h, hg, rfl⟩ := Document.hoist_settles hk (normalize_eq_ok.mp hd).1
  obtain ⟨_, -, hrest⟩ := bind_eq_ok.mp hconvert
  obtain ⟨es, hes, hrest⟩ := bind_eq_ok.mp hrest
  cases hrest
  have hop : (d.settle h.entryOf h.table).operations[i]? =
      some (path, item.settle h.entryOf, method, o.settle h.entryOf) := by
    rw [Document.operations_settle, List.getElem?_map, ho]
    rfl
  obtain ⟨e, he, hconv⟩ := exists_getElem?_of_mapM hes hop
  have hmoved : s ∈ d.moved h.table := by
    refine List.mem_append_left _ (List.mem_filter.mpr ⟨?_, hs.needsName⟩)
    refine Document.mem_bodies (List.mem_of_getElem? ho) (List.mem_append_left _ ?_)
    exact Option.mem_toList.mpr hbody
  obtain ⟨x, hx, hnone, hnames⟩ := mem_bodyParameters_settle hk hg hs hbody hmoved rfl hconv
  refine ⟨_, e, hd, he, ?_, ?_⟩
  · intro hsame p hp c hc name hname
    rw [← lookalike_entry hg hp] at hc
    obtain rfl : x = c := Option.some.inj (hx.symm.trans hc)
    exact (hsame name).mp ((hnames name).mpr (Or.inl hname))
  · intro hcond name
    rw [hnames]
    refine ⟨fun hname => hname.elim (fun hname => ?_) id, Or.inr⟩
    cases hp : d.lookalike? s with
    | none => simp [Schema.inherited, hnone hp] at hname
    | some p => exact hcond p hp x (lookalike_entry hg hp ▸ hx) name hname

/-- A body and a component of its signature, which has a property from a base besides. -/
def extended (inherited : String) : Document :=
  .posting [("Base", { Schema.objectOf [(inherited, .text)] with description := some "Base" }),
    ("Team", { Schema.objectOf [("name", .text)] with allOf := some [.refTo "Base"] })]
    (.objectOf [("name", .text)])

/-- A base that adds nothing to the body. -/
theorem describe_extended_name : (Table.keys (extended "name").components.schemas).Nodup ∧
    ∃ a e, (extended "name").describe = .ok a ∧ a.endpoints[0]? = some e ∧
      ∀ name, name ∈ e.bodyParameters.map (·.name) ↔ name ∈ ["name"] := by
  have hk : (Table.keys (extended "name").components.schemas).Nodup := by decide
  have hrun : (extended "name").describe.toOption.map (fun _ => ()) = some () := by
    decide +kernel
  have hentry : (extended "name").normalize.toOption.map (fun d' =>
      (Table.find? "Team" d'.components.schemas).map (·.inherited d'.components.schemas)) =
      some (some ["name"]) := by decide +kernel
  have hlike : ((extended "name").lookalike? (.objectOf [("name", .text)])).map (·.1) =
      some "Team" := by decide +kernel
  obtain ⟨a, ha, -⟩ := toOption_map_eq_some.mp hrun
  obtain ⟨d₁, hd₁, hteam⟩ := toOption_map_eq_some.mp hentry
  obtain ⟨d', e, hd, he, hiff⟩ := describe_bodyParameters (i := 0) hk ha rfl rfl
    ⟨rfl, rfl, Or.inr rfl, rfl, List.cons_ne_nil _ _⟩
  refine ⟨hk, a, e, ha, he, hiff.mpr fun p hp c hc => ?_⟩
  obtain rfl : d₁ = d' := Except.ok.inj (hd₁.symm.trans hd)
  have hname : p.1 = "Team" := by
    rw [hp] at hlike
    exact Option.some.inj hlike
  rw [hname] at hc
  rw [hc] at hteam
  have hinherited : c.inherited d₁.components.schemas = ["name"] := Option.some.inj hteam
  simp [hinherited]

/-- The property from the base is sent, though it is not written in the body. -/
theorem describe_extended_id : ¬ ∀ (d : Document) (a : Api.Description) (i : Nat) (path : String)
    (item : PathItem) (method : Api.HttpMethod) (o : Operation) (s : Schema)
    (ps : List (String × Schema)), (Table.keys d.components.schemas).Nodup →
      d.describe = .ok a → d.operations[i]? = some (path, item, method, o) →
      o.requestSchema? = some s → s.WrittenOut ps → ∃ e, a.endpoints[i]? = some e ∧
        ∀ name, name ∈ e.bodyParameters.map (·.name) ↔ name ∈ Table.keys ps := by
  intro hall
  have h : (extended "id").describe.toOption.map (fun a =>
      a.endpoints[0]?.map fun e => e.bodyParameters.map (·.name)) = some (some ["id", "name"]) := by
    decide +kernel
  obtain ⟨a, ha, hnames⟩ := toOption_map_eq_some.mp h
  obtain ⟨e, he, hsame⟩ := hall _ a 0 _ _ _ _ _ _ (by decide) ha rfl rfl
    ⟨rfl, rfl, Or.inr rfl, rfl, List.cons_ne_nil _ _⟩
  have hid : e.bodyParameters.map (·.name) = ["id", "name"] := by
    rw [he] at hnames
    exact Option.some.inj hnames
  have hmem := (hsame "id").mp (hid ▸ List.mem_cons_self)
  simp [Table.keys] at hmem

end SdkSmith.OpenApi
