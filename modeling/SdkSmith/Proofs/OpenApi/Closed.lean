import SdkSmith.OpenApi.Description
import SdkSmith.Proofs.OpenApi.Mentions
import SdkSmith.Proofs.OpenApi.References

/-!
A description names no schema that it does not have. The check of references and the conversion
walk the document separately; wherever the conversion reads a reference, the check has been.
-/
namespace SdkSmith.OpenApi

variable {follow : Follow} {table : Table Schema} {names : List String} {s : Schema} {m : Merge}

/-- What an allOf has gathered names nothing else. -/
def Merge.Within (names : List String) (m : Merge) : Prop :=
  Api.PropertiesWithin names m.properties

/-- Following a reference adds no other names. -/
def Follow.Keeps (names : List String) (follow : Follow) : Prop :=
  ∀ target m, Merge.Within names m → Merge.Within names (follow target m)

theorem Merge.within_empty : Merge.empty.Within names := by
  intro p hp
  simp [Merge.empty] at hp

/-- The type of a schema without members is no reference. -/
theorem Schema.schemaName?_valueType : s.valueType.schemaName? = none := by
  unfold Schema.valueType Api.ValueType.ofJsonSchema
  repeat' split
  all_goals rfl

/-- A schema's own properties name what their conversions name. -/
theorem Schema.within_own (hm : m.Within names)
    (h : ∀ ps, s.properties = some ps → ∀ p ∈ ps, (convertWith follow p.1 p.2).Within names) :
    (s.own follow m).Within names := by
  apply Api.PropertiesWithin.putAll hm
  intro p hp
  cases hps : s.properties with
  | none => simp [hps] at hp
  | some ps =>
    rw [hps, Option.elim_some, convertProperties_eq, List.mem_map] at hp
    obtain ⟨q, hq, rfl⟩ := hp
    exact h ps hps q hq

/-- Conversion and gathering name entries only, if every reference in the schema was checked.
One induction for both, since each runs through the other. -/
theorem within_of_checked (hf : Follow.Keeps (Table.keys table) follow) (h : Checked table s) :
    (∀ name, (convertWith follow name s).Within (Table.keys table)) ∧
      ∀ m : Merge, m.Within (Table.keys table) → (gather follow s m).Within (Table.keys table) := by
  induction s using Schema.tree_induction with
  | step s properties items members =>
    have hprops : ∀ ps, s.properties = some ps → ∀ p ∈ ps,
        (convertWith follow p.1 p.2).Within (Table.keys table) := fun ps hps p hp =>
      (properties ps hps p hp (h.property hps hp)).1 p.1
    have hall : ∀ ss, s.allOf = some ss → ∀ m : Merge, m.Within (Table.keys table) →
        (gatherAll follow ss m).Within (Table.keys table) := by
      intro ss hss m hm
      rw [gatherAll_eq]
      exact List.foldlRecOn ss _ hm fun m hm x hx => (members ss hss x hx (h.member hss hx)).2 m hm
    constructor
    · intro name
      rw [convertWith_eq]
      cases hr : s.reference with
      | some r =>
        refine Api.Schema.Within.describe (Api.within_scalar ?_) _ _ []
        rintro n ⟨rfl⟩
        exact h.target hr
      | none =>
        apply Api.Schema.Within.describe
        unfold Schema.core
        split
        · rename_i ss hss
          exact Api.within_object (Schema.within_own (hall ss hss _ Merge.within_empty) hprops)
        · split
          · apply Api.within_array
            cases hi : s.items with
            | none => exact Api.within_scalar (by simp [Api.ValueType.schemaName?])
            | some i => exact (items i hi (h.items hi)).1 _
          · split
            · rename_i ps hps
              apply Api.within_object
              intro p hp
              rw [convertProperties_eq, List.mem_map] at hp
              obtain ⟨q, hq, rfl⟩ := hp
              exact hprops ps hps q hq
            · exact Api.within_scalar (by simp [Schema.schemaName?_valueType])
    · intro m hm
      rw [gather_eq]
      cases hr : s.reference with
      | some r => exact hf _ m hm
      | none =>
        apply Schema.within_own _ hprops
        cases hss : s.allOf with
        | none => exact hm
        | some ss => exact hall ss hss m hm

theorem followIn_keeps (h : ∀ p ∈ table, Checked table p.2) (fuel : Nat) :
    Follow.Keeps (Table.keys table) (followIn table fuel) := by
  induction fuel with
  | zero =>
    intro target m hm
    exact hm
  | succ fuel ih =>
    intro target m hm
    unfold followIn
    split
    · exact hm
    · rename_i s hs
      split
      · exact hm
      · exact (within_of_checked ih (h _ (Table.mem_of_find? hs)).withoutReference).2 _ hm

theorem convertSchema_within (h : ∀ p ∈ table, Checked table p.2) (hs : Checked table s)
    (name : String) : (convertSchema table name s).Within (Table.keys table) :=
  (within_of_checked (followIn_keeps h _) hs).1 name

theorem Parameter.mentions_convert {p : Parameter}
    (h : ∀ s, p.schema = some s → Checked table s) :
    ∀ n ∈ p.convert.mentions, n ∈ Table.keys table := by
  intro n hn
  unfold Parameter.convert Api.Parameter.mentions at hn
  cases hs : p.schema with
  | none => simp [hs, Api.ValueType.schemaName?] at hn
  | some s =>
    cases hr : s.reference with
    | none => simp [hs, hr, Schema.target?, Schema.schemaName?_valueType] at hn
    | some r =>
      obtain rfl : n = targetOf r := by
        simpa [hs, hr, Schema.target?, Api.ValueType.schemaName?] using hn
      exact (h s hs).target hr

/-- Each parameter on an operation is one that was declared there or on its path, or the component
that such a one refers to. -/
theorem Operation.mem_parametersOn {o : Operation} {named : Table Parameter} {item : PathItem}
    {location : String} {ps : List ((String × String) × Parameter)}
    (h : o.parametersOn named item location = .ok ps) {q : (String × String) × Parameter}
    (hq : q ∈ ps) : q.2 ∈ item.parameters ++ o.parameters ∨ ∃ name, (name, q.2) ∈ named := by
  obtain ⟨rs, hrs, h⟩ := bind_eq_ok.mp h
  cases h
  rcases Table.mem_putAll hq with hq | hq
  · simp at hq
  · obtain ⟨p, hp, rfl⟩ := List.mem_map.mp hq
    obtain ⟨p', hp', hres⟩ := mem_of_mapM hrs hp
    unfold Parameter.resolve at hres
    split at hres
    · cases hres
      exact Or.inl hp'
    · split at hres
      · rename_i hfind
        cases hres
        obtain ⟨name, -, hname⟩ := Option.bind_eq_some_iff.mp hfind
        exact Or.inr ⟨name, Table.mem_of_find? hname⟩
      · cases hres

theorem mentions_bodyParameters (h : ∀ p ∈ table, Checked table p.2) (hs : Checked table s)
    {p : Api.Parameter} (hp : p ∈ bodyParameters table s) :
    ∀ n ∈ p.mentions, n ∈ Table.keys table := by
  have htarget : Checked table ((s.target?.bind fun name => Table.find? name table).getD s) := by
    cases he : s.target?.bind fun name => Table.find? name table with
    | none => exact hs
    | some e =>
      obtain ⟨name, -, hname⟩ := Option.bind_eq_some_iff.mp he
      exact h _ (Table.mem_of_find? hname)
  have hbody := convertSchema_within h htarget "data"
  intro n hn
  unfold bodyParameters at hp
  simp only at hp
  split at hp
  · obtain ⟨q, hq, rfl⟩ := List.mem_map.mp hp
    exact (hbody.property q hq).type n (Option.mem_toList.mp hn)
  · obtain rfl := List.mem_singleton.mp hp
    exact hbody.type n (Option.mem_toList.mp hn)

/-- Declaring placeholders adds strings, which name nothing. -/
theorem mentions_declarePlaceholders (e : Api.Endpoint) :
    ∀ n ∈ e.declarePlaceholders.mentions, n ∈ e.mentions := by
  intro n hn
  have hplain : ∀ n, n ∉ (e.undeclared.map fun name =>
      Api.Parameter.plain name .string).flatMap Api.Parameter.mentions := by
    simp [Api.Parameter.mentions, Api.Parameter.plain, Api.ValueType.schemaName?]
  simp only [Api.Endpoint.mentions, Api.Endpoint.declarePlaceholders, List.flatMap_append,
    List.mem_append] at hn ⊢
  grind

variable {d d' : Document} {o : Operation} {path : String} {item : PathItem}
  {method : Api.HttpMethod} {e : Api.Endpoint}

theorem mentions_convertOperation (hd : d.References)
    (ho : (path, item, method, o) ∈ d.operations)
    (h : o.convert d.components path item method = .ok e) :
    ∀ n ∈ e.mentions, n ∈ Table.keys d.components.schemas := by
  obtain ⟨ps, hps, h⟩ := bind_eq_ok.mp h
  cases h
  have hschema : ∀ q ∈ ps, ∀ s, q.2.schema = some s → Checked d.components.schemas s := by
    intro q hq s hs
    rcases Operation.mem_parametersOn hps hq with hq | ⟨name, hname⟩
    · exact hd.own _ ho _ hq s hs
    · exact hd.parameter _ hname s hs
  intro n hn
  replace hn := mentions_declarePlaceholders _ n hn
  rcases List.mem_append.mp hn with hn | hn
  · obtain ⟨p, hp, hn⟩ := List.mem_flatMap.mp hn
    simp only [List.mem_append, List.mem_map, List.mem_filter] at hp
    rcases hp with ((⟨_, ⟨q, ⟨hq, -⟩, rfl⟩, rfl⟩ | ⟨q, ⟨hq, -⟩, rfl⟩) | ⟨q, ⟨hq, -⟩, rfl⟩) | hp
    · exact Parameter.mentions_convert (hschema q hq) n hn
    · exact Parameter.mentions_convert (hschema q hq) n hn
    · exact Parameter.mentions_convert (hschema q hq) n hn
    · cases hs : o.requestSchema? with
      | none => simp [hs] at hp
      | some s =>
        simp only [hs] at hp
        exact mentions_bodyParameters hd.schema (hd.request _ ho s hs) hp n hn
  · obtain ⟨r, hr, hn⟩ := List.mem_flatMap.mp hn
    obtain ⟨q, hq, rfl⟩ := List.mem_map.mp hr
    obtain ⟨s, hs, hn⟩ := Option.bind_eq_some_iff.mp (Option.mem_toList.mp hn)
    obtain ⟨r, hr, rfl⟩ := Option.map_eq_some_iff.mp hn
    exact (hd.response _ ho q hq s hs).target hr

theorem mentions_convert (hd : d.References) {title : String} {about : Option String}
    {a : Api.Description} (h : d.convert title about = .ok a) :
    ∀ n ∈ a.mentions, n ∈ Table.keys a.components.schemas := by
  obtain ⟨c, hc, h⟩ := bind_eq_ok.mp h
  obtain ⟨es, hes, h⟩ := bind_eq_ok.mp h
  cases h
  obtain ⟨schemes, -, hc⟩ := bind_eq_ok.mp hc
  cases hc
  have hkeys : Table.keys (d.components.schemas.map fun p =>
      (p.1, convertSchema d.components.schemas p.1 p.2)) = Table.keys d.components.schemas := by
    simp [Table.keys, Function.comp_def]
  intro n hn
  change n ∈ Table.keys (d.components.schemas.map _)
  rw [hkeys]
  simp only [Api.Description.mentions, List.mem_append, List.mem_flatMap] at hn
  rcases hn with (⟨_, hp, hn⟩ | hn) | ⟨e, he, hn⟩
  · obtain ⟨p, hq, rfl⟩ := List.mem_map.mp hp
    exact convertSchema_within hd.schema (hd.schema p hq) p.1 n hn
  · obtain ⟨p, hp, rfl⟩ := List.mem_map.mp hn
    exact Table.mem_keys_of_mem (List.mem_filter.mp hp).1
  · obtain ⟨p, hp, he⟩ := mem_of_mapM hes he
    exact mentions_convertOperation hd hp he n hn

theorem describe_eq_ok {a : Api.Description} (h : d.describe = .ok a) :
    ∃ d' title about, d.normalize = .ok d' ∧ d'.convert title about = .ok a := by
  unfold Document.describe at h
  split at h
  · cases h
  · rename_i info _
    split at h
    · cases h
    · rename_i title _
      split at h
      · cases h
      · obtain ⟨d', hd', h⟩ := bind_eq_ok.mp h
        exact ⟨d', title, info.description, hd', h⟩

/-- Every schema that a description names, in its table at any depth, in a parameter or in a
response, is an entry of its table. -/
theorem describe_closed {a : Api.Description} (h : d.describe = .ok a) :
    ∀ n ∈ a.mentions, n ∈ Table.keys a.components.schemas := by
  obtain ⟨d', title, about, hd', h⟩ := describe_eq_ok h
  exact mentions_convert (Document.references (normalize_eq_ok.mp hd').2) h

/-- Two components that lead to each other, one by an allOf that leads to itself too, and an
operation with a referenced parameter and inline bodies. -/
def loops : Document where
  version := none
  info := some ⟨some "Loops", none, none⟩
  servers := []
  paths := some [("/loops", {
    get := none
    put := none
    post := some {
      operationId := some "createLoop"
      summary := none
      description := none
      tags := []
      parameters := [⟨some "#/components/parameters/Page", "", "", none, false, none⟩]
      requestBody := some ⟨none, true,
        [("application/json", ⟨some (.objectOf [("loop", .refTo "Loop")])⟩)]⟩
      responses := [("200", ⟨none, [("application/json",
        ⟨some (.arrayOf (.objectOf [("base", .refTo "Base")]))⟩)]⟩)]
    }
    delete := none
    options := none
    head := none
    patch := none
    trace := none
    parameters := []
  })]
  components := {
    schemas := [("Base", .objectOf [("owner", .objectOf [("peer", .refTo "Loop")])]),
      ("Loop", { Schema.blank with allOf := some [.refTo "Base", .refTo "Loop"] })]
    parameters := [("Page", ⟨none, "page", "query", none, false, some (.refTo "Base")⟩)]
    securitySchemes := []
  }
  security := []

theorem describe_loops_closed : ∃ a, loops.describe = .ok a ∧ a.mentions.length = 11 ∧
    ∀ n ∈ a.mentions, n ∈ Table.keys a.components.schemas := by
  have h : loops.describe.toOption.map (·.mentions.length) = some 11 := by decide +kernel
  obtain ⟨a, ha, hn⟩ := toOption_map_eq_some.mp h
  exact ⟨a, ha, hn, describe_closed ha⟩

end SdkSmith.OpenApi
