import SdkSmith.Proofs.OpenApi.BodyFields
import SdkSmith.Proofs.OpenApi.DistinctProperties
import SdkSmith.Proofs.OpenApi.Hoist.FixedPoint
import SdkSmith.Proofs.OpenApi.Merge.Lineages

/-!
The defaults of body parameters. Types and nullability come from the definitions that an allOf is
merged from, wherever they are written; defaults are looked up in the properties of the body itself,
so those of inherited properties are lost.
-/
namespace SdkSmith

theorem Text.unlessBlank_unlessBlank (s : Option String) : unlessBlank (unlessBlank s) =
    unlessBlank s := by
  cases s with
  | none => rfl
  | some s =>
    rw [unlessBlank]
    split
    · rfl
    · simp_all [unlessBlank]

/-- A list of pairs with distinct keys is a table already. -/
theorem Table.ofList_eq_self {κ α : Type} [DecidableEq κ] {l : List (κ × α)}
    (hk : (keys l).Nodup) : ofList l = l := by
  induction l using List.reverseRecOn with
  | nil => rfl
  | append_singleton l p ih =>
    rw [keys_append, List.nodup_append] at hk
    have hp : p.1 ∉ keys l := fun h => hk.2.2 _ h p.1 (by simp) rfl
    rw [ofList_append_singleton, ih hk.1, put_of_not_mem hp]

namespace OpenApi

/-- The parameter that a property becomes, with the default of its definition. -/
def parameterOf (table : Table Schema) (required : List String) (p : String × Schema) :
    Api.Parameter :=
  ⟨p.1, (convertSchema table p.1 p.2).type, p.2.isNullable || !required.contains p.1,
    Text.unlessBlank p.2.description, literalDefault? p.2.default⟩

/-- The same for a property of a body, without a default if the body inherits it. -/
def ownParameterOf (table : Table Schema) (required : List String) (b : Schema)
    (p : String × Schema) : Api.Parameter :=
  if p.1 ∈ Table.keys (b.properties.getD []) then parameterOf table required p
  else { parameterOf table required p with default := none }

/-- Whether some schemas, in this order, are what a schema is merged from. -/
def Schema.MergedFrom (table : Table Schema) (s : Schema) (parts : List Schema) : Prop :=
  ∃ v, Lineage table [] [s] parts v

variable {table : Table Schema} {follow follow' : Follow} {s b : Schema} {name n : String}
  {parts : List Schema} {v : List String} {p : String × Schema} {required : List String}
  {d d' : Document}

/-! Types -/

/-- How references are followed makes no difference to what a type says of itself. -/
theorem convertWith_type (follow follow' : Follow) :
    (convertWith follow name s).type = (convertWith follow' name s).type := by
  rw [convertWith_eq, convertWith_eq]
  cases s.reference with
  | some r => rfl
  | none =>
    change (s.core follow name).type = (s.core follow' name).type
    unfold Schema.core
    split
    · rfl
    · split
      · rfl
      · split <;> rfl

theorem convertWith_nullable : (convertWith follow name s).nullable = s.isNullable := by
  rw [convertWith_eq]
  cases s.reference <;> rfl

theorem convertWith_description :
    (convertWith follow name s).description = Text.unlessBlank s.description := by
  rw [convertWith_eq]
  cases s.reference <;> rfl

/-- The type of a definition as a parameter. -/
theorem toParameter_of_isTypeOf (required : List String) {t : Api.Schema}
    (h : IsTypeOf table p.1 t p.2) :
    { t.toParameter (required.contains p.1) with default := literalDefault? p.2.default } =
      parameterOf table required p := by
  obtain ⟨depth, rfl⟩ := h
  rw [Api.Schema.toParameter, convertWith_name, convertWith_nullable, convertWith_description,
    Text.unlessBlank_unlessBlank, parameterOf, convertSchema,
    convertWith_type _ (followIn table table.length)]

/-! Bodies -/

/-- The walk from a schema ends with the schema. -/
theorem Lineage.ends (h : Lineage table [] [b] parts v) (hb : b.target? = none) :
    ∃ front, parts = front ++ [b] := by
  cases h with
  | written _ _ rest =>
    cases rest
    exact ⟨_, rfl⟩
  | passed hs => simp [hb] at hs
  | entered hs => simp [hb] at hs

/-- What a body defines itself is its own definition. -/
theorem find?_definitions {front : List Schema} (hk : (Table.keys (b.properties.getD [])).Nodup)
    (hp : p ∈ definitions (front ++ [b])) (hown : p.1 ∈ Table.keys (b.properties.getD [])) :
    Table.find? p.1 (b.properties.getD []) = some p.2 := by
  obtain ⟨w, hw⟩ := Option.isSome_iff_exists.mp (Table.find?_isSome.mpr hown)
  have hfind := Table.find?_of_mem (Table.nodup_ofList _) hp
  rw [← definitions, definitions_append_singleton,
    Table.find?_putAll hk (Table.mem_of_find? hw)] at hfind
  rw [hw, Option.some.inj hfind]

theorem find?_getD (ps : Option (List (String × Schema))) (k : String) :
    ps.bind (Table.find? k) = Table.find? k (ps.getD []) := by
  cases ps <;> rfl

/-- The type of a definition as a parameter of the body, with the default that the body itself has
for it. -/
theorem toParameter_own {front : List Schema} {t : Api.Schema}
    (hk : (Table.keys (b.properties.getD [])).Nodup) (hp : p ∈ definitions (front ++ [b]))
    (ht : IsTypeOf table p.1 t p.2) :
    { t.toParameter (required.contains p.1) with
        default := literalDefault? ((b.properties.bind (Table.find? p.1)).bind (·.default)) } =
      ownParameterOf table required b p := by
  have hparameter := toParameter_of_isTypeOf required ht
  rw [ownParameterOf, find?_getD]
  split
  · rename_i hown
    rw [find?_definitions hk hp hown]
    exact hparameter
  · rename_i hown
    rw [← hparameter, Option.not_isSome_iff_eq_none.mp (mt Table.find?_isSome.mp hown)]
    rfl

/-- A reference has no properties. -/
theorem reference_of_isObject (h : (convertSchema table name b).isObject = true) :
    b.reference = none := by
  cases hr : b.reference with
  | none => rfl
  | some r =>
    rw [convertSchema, convertWith_eq, hr] at h
    cases h

theorem addNames_contains (names : List String) (k : String) :
    (Merge.addNames [] names).contains k = names.contains k := by
  rw [Bool.eq_iff_iff, List.contains_iff_mem, List.contains_iff_mem, Merge.mem_addNames]
  simp

/-- A body with properties has those that are gathered from what it is merged from. -/
theorem convertSchema_body (hk : (Table.keys (b.properties.getD [])).Nodup)
    (h : (convertSchema table name b).isObject = true) :
    (convertSchema table name b).properties =
        (b.body (followIn table table.length) .empty).properties ∧
      ∀ k, (convertSchema table name b).requires k =
        (b.body (followIn table table.length) .empty).required.contains k := by
  have hconvert : (convertSchema table name b).properties =
        (b.core (followIn table table.length) name).properties ∧
      (convertSchema table name b).required =
        (b.core (followIn table table.length) name).required := by
    rw [convertSchema, convertWith_eq, reference_of_isObject h]
    exact ⟨rfl, rfl⟩
  rw [Api.Schema.isObject, hconvert.1] at h
  simp only [Api.Schema.requires, hconvert]
  rw [Schema.core] at h ⊢
  cases hss : b.allOf with
  | some ss =>
    simp only [Schema.body, hss]
    exact ⟨rfl, fun _ => rfl⟩
  | none =>
    simp only [hss, Schema.body, Option.elim_none] at h ⊢
    split at h
    · cases h
    · rename_i harray
      cases hps : b.properties with
      | none =>
        rw [hps] at h
        cases h
      | some ps =>
        have hkeys : (Table.keys (convertProperties (followIn table table.length) ps)).Nodup := by
          rwa [hps, Option.getD_some, ← keys_convertProperties] at hk
        rw [if_neg harray, Schema.own, hps]
        exact ⟨(Table.ofList_eq_self hkeys).symm, fun k => (addNames_contains _ k).symm⟩

/-- The parameters of a body with properties: one for each property that is defined by what the
body is merged from, of which those that it inherits have no default. -/
theorem bodyParameters_eq (hs : s.source? table = some b)
    (hk : (Table.keys (b.properties.getD [])).Nodup)
    (hobject : (convertSchema table "data" b).isObject = true) : ∃ parts v,
      Lineage table [] [b] parts v ∧ bodyParameters table s =
        (definitions parts).map (ownParameterOf table (requiredNames parts) b) := by
  have hr := reference_of_isObject hobject
  obtain ⟨parts, v, hwalk, hfrom⟩ := exists_lineage table hr
  obtain ⟨hproperties, hrequires⟩ := convertSchema_body hk hobject
  obtain ⟨front, rfl⟩ := hwalk.ends (Schema.target?_of_written hr)
  refine ⟨_, v, hwalk, ?_⟩
  have htarget : (s.target?.bind fun n => Table.find? n table).getD s = b := by
    unfold Schema.source? at hs
    split at hs
    · rename_i n hn
      rw [hn, Option.bind_some, hs, Option.getD_some]
    · rename_i hn
      rw [hn]
      exact Option.some.inj hs
  rw [bodyParameters]
  simp only [htarget, hobject, if_true, hproperties, hrequires]
  refine hfrom.properties.map_eq fun q hq t ht => ?_
  have hrequired : (b.body (followIn table table.length) .empty).required.contains q.1 =
      (requiredNames (front ++ [b])).contains q.1 := by
    rw [Bool.eq_iff_iff, List.contains_iff_mem, List.contains_iff_mem]
    exact hfrom.required q.1
  rw [hrequired]
  exact toParameter_own hk hq ht

/-! Documents -/

/-- In the normal form a body stands for a schema in which no property comes twice. -/
theorem exists_source {path : String} {item : PathItem} {method : Api.HttpMethod} {o : Operation}
    (hd : d.Distinct) (hn : d.normalize = .ok d')
    (ho : (path, item, method, o) ∈ d'.operations) (hs : o.requestSchema? = some s) :
    ∃ b, s.source? d'.components.schemas = some b ∧
      (Table.keys (b.properties.getD [])).Nodup := by
  obtain ⟨hentries, hbodies⟩ := hd.normalize hn
  cases hr : s.reference with
  | none =>
    refine ⟨s, Schema.source?_of_written hr, hbodies s (Document.mem_bodies ho ?_)⟩
    exact List.mem_append_left _ (Option.mem_toList.mpr hs)
  | some r =>
    have hchecked := (Document.references (normalize_eq_ok.mp hn).2).request _ ho s hs
    obtain ⟨b, hb⟩ := Option.isSome_iff_exists.mp (Table.find?_isSome.mpr (hchecked.target hr))
    refine ⟨b, ?_, hentries _ (Table.mem_of_find? hb)⟩
    rw [Schema.source?_of_target (Schema.target?_of_reference hr), hb]

theorem map_ownParameterOf_eq : (definitions parts).map (ownParameterOf table required b) =
      (definitions parts).map (parameterOf table required) ↔
    ∀ p ∈ definitions parts, p.1 ∉ Table.keys (b.properties.getD []) →
      literalDefault? p.2.default = none := by
  rw [List.map_inj_left]
  refine forall₂_congr fun p _ => ?_
  rw [ownParameterOf]
  split
  · simp_all
  · rw [Api.Parameter.mk.injEq]
    simp_all [parameterOf, eq_comm]

/-- The parameters of a body with properties are those of the definitions that it is merged from,
with their types and nullability. They have the defaults of these definitions exactly if those that
the body inherits have none; the other defaults are lost. -/
theorem describe_losesDefaults {a : Api.Description} (hd : d.Distinct)
    (ha : d.describe = .ok a) : ∃ d', d.normalize = .ok d' ∧
      ∀ (i : Nat) path item method o s, d'.operations[i]? = some (path, item, method, o) →
        o.requestSchema? = some s → ∃ e b, a.endpoints[i]? = some e ∧
          s.source? d'.components.schemas = some b ∧
          ((convertSchema d'.components.schemas "data" b).isObject = true → ∃ parts,
            (∀ l, b.MergedFrom d'.components.schemas l ↔ l = parts) ∧
            e.bodyParameters = (definitions parts).map
              (ownParameterOf d'.components.schemas (requiredNames parts) b) ∧
            (e.bodyParameters = (definitions parts).map
                (parameterOf d'.components.schemas (requiredNames parts)) ↔
              ∀ p ∈ definitions parts, p.1 ∉ Table.keys (b.properties.getD []) →
                literalDefault? p.2.default = none)) := by
  obtain ⟨d', hn, hendpoints⟩ := describe_requestSchema ha
  refine ⟨d', hn, fun i path item method o s ho hs => ?_⟩
  obtain ⟨e, he, hbody⟩ := hendpoints i path item method o ho
  obtain ⟨b, hb, hk⟩ := exists_source hd hn (List.mem_of_getElem? ho) hs
  refine ⟨e, b, he, hb, fun hobject => ?_⟩
  obtain ⟨parts, v, hwalk, hparameters⟩ := bodyParameters_eq hb hk hobject
  rw [hs] at hbody
  have hall : e.bodyParameters = (definitions parts).map
      (ownParameterOf d'.components.schemas (requiredNames parts) b) := hbody.trans hparameters
  refine ⟨parts, fun l => ⟨?_, ?_⟩, hall, ?_⟩
  · rintro ⟨w, hw⟩
    exact (hwalk.unique hw).1
  · rintro rfl
    exact ⟨v, hwalk⟩
  · rw [hall, map_ownParameterOf_eq]

/-- A text with or without a default. -/
def textWith (default : Option Json) : Schema := { Schema.text with default := default }

/-- What an order is based on. -/
def orderBase (default : Option Json) : Schema := .objectOf [("note", textWith default)]

/-- An order, which has a size of its own. -/
def order : Schema :=
  { Schema.objectOf [("size", textWith (some (.string "large")))] with
    allOf := some [.refTo "Base"], required := some ["size"] }

/-- A document with a body that has a property of its own and inherits another. -/
def ordering (default : Option Json) : Document := .posting [("Base", orderBase default)] order

/-- There is nothing to hoist. -/
theorem normalize_ordering (default : Option Json) :
    (ordering default).normalize = .ok (ordering default) := by
  have hk : (Table.keys (ordering default).components.schemas).Nodup := by
    change ["Base"].Nodup
    decide
  have hbodies : (ordering default).bodies = [order] := rfl
  have hnote : (textWith default).moved .member = [] := by
    rw [Schema.moved_eq]
    rfl
  rw [normalize_eq_ok, Document.hoist_eq_self hk]
  refine ⟨⟨fun s hs => ?_, ?_⟩, rfl⟩
  · rw [hbodies, List.mem_singleton] at hs
    rw [hs]
    decide +kernel
  · change (orderBase default).moved .entry ++ [] = []
    rw [List.append_nil, Schema.moved_entry]
    simp [Schema.inside, orderBase, Schema.objectOf, Schema.blank, Schema.movedOut_eq, hnote]

/-- The order is merged from its base and itself. -/
theorem order_mergedFrom (default : Option Json) :
    order.MergedFrom (ordering default).components.schemas [orderBase default, order] := by
  have hbase : Lineage (ordering default).components.schemas [] [.refTo "Base"]
      [orderBase default] ["Base"] :=
    .entered (e := orderBase default) (target?_refTo "Base") List.not_mem_nil rfl .nil .nil
  have horder := Lineage.written (s := order) rfl hbase .nil
  exact ⟨["Base"], horder⟩

theorem definitions_order (default : Option Json) : definitions [orderBase default, order] =
    [("note", textWith default), ("size", textWith (some (.string "large")))] := rfl

theorem distinct_textWith (default : Option Json) : (textWith default).Distinct :=
  .intro List.nodup_nil nofun nofun nofun

theorem distinct_ordering (default : Option Json) : (ordering default).Distinct := by
  have hbase : (orderBase default).Distinct := by
    refine .intro (by change ["note"].Nodup; decide) ?_ nofun nofun
    rintro _ ⟨rfl⟩ p hp
    obtain rfl := List.mem_singleton.mp hp
    exact distinct_textWith default
  have horder : order.Distinct := by
    refine .intro (by decide) ?_ nofun ?_
    · rintro _ ⟨rfl⟩ p hp
      obtain rfl := List.mem_singleton.mp hp
      exact distinct_textWith _
    · rintro _ ⟨rfl⟩ x hx
      obtain rfl := List.mem_singleton.mp hx
      exact .intro List.nodup_nil nofun nofun nofun
  refine ⟨?_, ?_, ?_⟩
  · change ["Base"].Nodup
    decide
  · intro p hp
    obtain rfl := List.mem_singleton.mp hp
    exact hbase
  · intro s hs
    rw [show (ordering default).bodies = [order] from rfl, List.mem_singleton] at hs
    exact hs ▸ horder

/-- Nothing is lost if what is inherited has no default. -/
theorem describe_ordering_losesDefaults : (ordering none).Distinct ∧ ∃ a e,
    (ordering none).describe = .ok a ∧ a.endpoints[0]? = some e ∧
      e.bodyParameters = (definitions [orderBase none, order]).map (parameterOf
        (ordering none).components.schemas (requiredNames [orderBase none, order])) := by
  have hrun : (ordering none).describe.toOption.map (fun _ => ()) = some () := by decide +kernel
  obtain ⟨a, ha, -⟩ := toOption_map_eq_some.mp hrun
  obtain ⟨d', hn, hbodies⟩ := describe_losesDefaults (distinct_ordering none) ha
  obtain rfl : d' = ordering none := Except.ok.inj (hn.symm.trans (normalize_ordering none))
  obtain ⟨e, b, he, hb, hparameters⟩ := hbodies 0 _ _ _ _ _ rfl rfl
  obtain rfl : b = order := Option.some.inj hb.symm
  obtain ⟨parts, hparts, -, hiff⟩ := hparameters (by decide +kernel)
  obtain rfl := (hparts _).mp (order_mergedFrom none)
  refine ⟨distinct_ordering none, a, e, ha, he, hiff.mpr fun p hp hown => ?_⟩
  rw [definitions_order] at hp
  rcases List.mem_pair.mp hp with rfl | rfl
  · rfl
  · exact absurd List.mem_cons_self hown

/-- The default of an inherited property is lost. -/
theorem describe_ordering_loses : ¬ ∀ (d d' : Document) (a : Api.Description) (i : Nat)
    (path : String) (item : PathItem) (method : Api.HttpMethod) (o : Operation) (s b : Schema)
    (parts : List Schema), d.Distinct → d.describe = .ok a → d.normalize = .ok d' →
      d'.operations[i]? = some (path, item, method, o) → o.requestSchema? = some s →
      s.source? d'.components.schemas = some b →
      (convertSchema d'.components.schemas "data" b).isObject = true →
      b.MergedFrom d'.components.schemas parts → ∃ e, a.endpoints[i]? = some e ∧
        e.bodyParameters = (definitions parts).map
          (parameterOf d'.components.schemas (requiredNames parts)) := by
  intro hall
  let note : Option Json := some (.string "none")
  have hrun : (ordering note).describe.toOption.map (fun a =>
      a.endpoints[0]?.map fun e => e.bodyParameters.map (·.default.isSome)) =
      some (some [false, true]) := by decide +kernel
  obtain ⟨a, ha, hlost⟩ := toOption_map_eq_some.mp hrun
  obtain ⟨e, he, hbody⟩ := hall _ _ a 0 _ _ _ _ _ order _ (distinct_ordering note) ha
    (normalize_ordering note) rfl rfl rfl (by decide +kernel) (order_mergedFrom note)
  rw [he, Option.map_some, hbody, definitions_order] at hlost
  exact absurd hlost (by decide +kernel)

end OpenApi
end SdkSmith
