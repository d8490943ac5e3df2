import Mathlib.Data.List.Forall2
import SdkSmith.Proofs.Client.Plan.Grouping
import SdkSmith.Proofs.OpenApi.Templates

/-!
Parameters that are declared again. Those of an operation come after those that its path shares,
and of the declarations with one name and one place the last counts, in the place of the first.
-/
namespace SdkSmith

/-- The keys of a table are in the order in which they were first put. -/
theorem Table.keys_ofList {α β κ : Type} [DecidableEq κ] (f : β → κ) (g : β → α) (l : List β) :
    keys (ofList (l.map fun b => (f b, g b))) = keysSeen f l := by
  induction l using List.reverseRecOn with
  | nil => rfl
  | append_singleton l b ih =>
    rw [List.map_append, List.map_singleton, ofList_append_singleton, keysSeen_append_singleton,
      ← ih]
    split
    · exact keys_put ‹_›
    · rw [put_of_not_mem ‹_›, keys_append]
      rfl

namespace OpenApi

open Naming (camelCase)

variable {d : Document} {o : Operation} {path : String} {item : PathItem}
  {method : Api.HttpMethod} {place location : String} {named : Table Parameter}
  {p q : Parameter} {ps : List Parameter} {c : Components} {i : Nat}

/-- Whether a declaration leads to a parameter: it is the parameter itself, or it refers to the
component that is. The component is taken as it stands: one that is a reference again is not
followed, so that it has the name and the place that it says itself, and without a place it is in
none of the lists of an endpoint. -/
inductive Parameter.LeadsTo (named : Table Parameter) : Parameter → Parameter → Prop
  | own {p : Parameter} (h : p.reference = none) : LeadsTo named p p
  | component {p q : Parameter} {name : String} (h : p.reference = some (parameterPrefix ++ name))
      (hq : Table.find? name named = some q) : LeadsTo named p q

theorem Parameter.resolve_eq_ok : p.resolve named location = .ok q ↔ p.LeadsTo named q := by
  constructor
  · intro h
    unfold resolve at h
    split at h
    · cases h
      exact .own ‹_›
    · rename_i r hr
      split at h
      · rename_i hfind
        cases h
        obtain ⟨name, hname, hq⟩ := Option.bind_eq_some_iff.mp hfind
        rw [Text.afterLead?_eq_some] at hname
        exact .component (hname ▸ hr) hq
      · cases h
  · intro h
    cases h with
    | own h => simp only [resolve, h]
    | @component _ name h hq =>
      have hname := Text.afterLead?_eq_some.mpr (Eq.refl (parameterPrefix ++ name))
      simp only [resolve, h, hname, Option.bind_some, hq]

theorem mapM_resolve_eq_ok {declared : List Parameter} :
    declared.mapM (Parameter.resolve named location) = .ok ps ↔
      List.Forall₂ (Parameter.LeadsTo named) declared ps := by
  induction declared generalizing ps with
  | nil => simp [pure, Except.pure, eq_comm]
  | cons p declared ih =>
    rw [mapM_cons_eq_ok]
    constructor
    · rintro ⟨q, qs, hq, hqs, rfl⟩
      exact .cons (Parameter.resolve_eq_ok.mp hq) (ih.mp hqs)
    · rintro (_ | ⟨hq, hqs⟩)
      exact ⟨_, _, Parameter.resolve_eq_ok.mpr hq, ih.mpr hqs, rfl⟩

/-! Keys and their last declarations -/

/-- The name and the place of a parameter. -/
def Parameter.key (p : Parameter) : String × String := (p.name, p.location)

/-- The keys for a place, each once, in the order in which they are first declared. -/
def keysFor (place : String) (ps : List Parameter) : List (String × String) :=
  keysSeen Parameter.key (ps.filter fun p => p.location == place)

/-- Whether a parameter is the last declaration of its key. -/
def IsLast (ps : List Parameter) (p : Parameter) : Prop :=
  ∃ before after, ps = before ++ p :: after ∧ ∀ q ∈ after, q.key ≠ p.key

/-- Parameters of an API that are made from the last declarations of the keys for a place, in the
order of the first ones. -/
def MadeFor (make : Parameter → Api.Parameter) (place : String) (ps : List Parameter)
    (made : List Api.Parameter) : Prop :=
  List.Forall₂ (fun key a => ∃ p, IsLast ps p ∧ p.key = key ∧ a = make p) (keysFor place ps) made

/-- The parameters by key, of which the last declarations count. -/
def merged (ps : List Parameter) : List ((String × String) × Parameter) :=
  Table.ofList (ps.map fun p => (p.key, p))

theorem key_of_mem_merged {x : (String × String) × Parameter} (h : x ∈ merged ps) :
    x.1 = x.2.key := by
  rcases Table.mem_putAll h with h | h
  · cases h
  · obtain ⟨q, -, rfl⟩ := List.mem_map.mp h
    rfl

theorem isLast_of_mem_merged {x : (String × String) × Parameter} (h : x ∈ merged ps) :
    IsLast ps x.2 := by
  obtain ⟨before, after, hsplit, hafter⟩ := Table.last_of_mem_ofList h
  obtain ⟨before', rest, rfl, -, hrest⟩ := List.map_eq_append_iff.mp hsplit
  obtain ⟨p, after', rfl, hp, rfl⟩ := List.map_eq_cons_iff.mp hrest
  subst hp
  refine ⟨before', after', rfl, fun q hq heq => hafter ?_⟩
  rw [Table.keys, List.map_map]
  exact List.mem_map.mpr ⟨q, hq, heq⟩

theorem keys_merged (place : String) (ps : List Parameter) :
    Table.keys ((merged ps).filter fun x => x.1.2 == place) = keysFor place ps := by
  have hkept := Table.filter_ofList (fun key => key.2 == place) (ps.map fun p => (p.key, p))
  rw [merged, hkept, List.filter_map, Table.keys_ofList]
  rfl

/-- The merged parameters of a place are made from the last declarations. -/
theorem madeFor_merged (make : Parameter → Api.Parameter) (place : String) (ps : List Parameter) :
    MadeFor make place ps (((merged ps).filter fun x => x.1.2 == place).map (make ·.2)) := by
  rw [MadeFor, ← keys_merged, Table.keys, List.forall₂_map_left_iff, List.forall₂_map_right_iff,
    List.forall₂_same]
  intro x hx
  have hmem : x ∈ merged ps := (List.mem_filter.mp hx).1
  exact ⟨x.2, isLast_of_mem_merged hmem, (key_of_mem_merged hmem).symm, rfl⟩

/-! Endpoints -/

/-- The placeholders of an endpoint that none of these parameters names, in camel case. -/
def unnamed (e : Api.Endpoint) (declared : List Api.Parameter) : List String :=
  e.placeholders.filter fun n => declared.all fun q => camelCase q.name != camelCase n

/-- Whether an endpoint has the parameters that are declared for it: for each place those of the
last declarations, and in the path, where none may be null, also a text for each placeholder that
is not declared. -/
structure Merges (ps : List Parameter) (e : Api.Endpoint) : Prop where
  query : MadeFor Parameter.convert "query" ps e.queryParameters
  header : MadeFor Parameter.convert "header" ps e.headerParameters
  path : ∃ declared, MadeFor Parameter.inPath "path" ps declared ∧
    e.pathParameters = declared ++ (unnamed e declared).map fun n => .plain n .string
  required : ∀ q ∈ e.pathParameters, q.nullable = false

theorem unnamed_eq (e : Api.Endpoint) :
    unnamed e.declarePlaceholders e.pathParameters = e.undeclared := by
  refine List.filter_congr fun n _ => ?_
  rw [List.not_any_eq_all_not]
  rfl

theorem convert_eq_declarePlaceholders {qs : List ((String × String) × Parameter)}
    (h : o.parametersOn c.parameters item (method.name ++ " " ++ path) = .ok qs) :
    ∃ e : Api.Endpoint, o.convert c path item method = .ok e.declarePlaceholders ∧
      e.pathParameters = (qs.filter fun x => x.1.2 == "path").map (·.2.inPath) ∧
      e.queryParameters = (qs.filter fun x => x.1.2 == "query").map (·.2.convert) ∧
      e.headerParameters = (qs.filter fun x => x.1.2 == "header").map (·.2.convert) := by
  rw [Operation.convert, h]
  exact ⟨_, rfl, List.map_map, rfl, rfl⟩

/-- An operation whose references lead to parameters has an endpoint with these parameters. -/
theorem exists_convert_merges (path : String) (method : Api.HttpMethod)
    (hps : List.Forall₂ (Parameter.LeadsTo c.parameters) (item.parameters ++ o.parameters) ps) :
    ∃ e, o.convert c path item method = .ok e ∧ Merges ps e := by
  have hmerged : o.parametersOn c.parameters item (method.name ++ " " ++ path) =
      .ok (merged ps) := by
    rw [Operation.parametersOn, mapM_resolve_eq_ok.mpr hps]
    rfl
  obtain ⟨e, he, hpath, hquery, hheader⟩ := convert_eq_declarePlaceholders hmerged
  refine ⟨_, he, ?_, ?_, ⟨e.pathParameters, ?_, ?_⟩, ?_⟩
  · exact hquery ▸ madeFor_merged _ _ _
  · exact hheader ▸ madeFor_merged _ _ _
  · exact hpath ▸ madeFor_merged _ _ _
  · rw [unnamed_eq]
    rfl
  · intro q hq
    rcases List.mem_append.mp hq with hq | hq
    · rw [hpath] at hq
      obtain ⟨x, -, rfl⟩ := List.mem_map.mp hq
      rfl
    · obtain ⟨n, -, rfl⟩ := List.mem_map.mp hq
      rfl

/-- An operation whose references lead to parameters has an endpoint with one parameter for each
name and place that is declared, made from the last declaration and in the order of the first. In
the path none may be null, and texts for the placeholders that are not declared come after them. -/
theorem describe_mergesParameters {a : Api.Description}
    (hk : (Table.keys d.components.schemas).Nodup)
    (ho : d.operations[i]? = some (path, item, method, o))
    (hps : List.Forall₂ (Parameter.LeadsTo d.components.parameters)
      (item.parameters ++ o.parameters) ps) :
    (∃ e, o.convert d.components path item method = .ok e ∧ Merges ps e) ∧
    (d.describe = .ok a → ∃ e, a.endpoints[i]? = some e ∧ Merges ps e) := by
  refine ⟨exists_convert_merges path method hps, fun ha => ?_⟩
  obtain ⟨d', title, about, hd, hconvert⟩ := describe_eq_ok ha
  obtain ⟨h, -, rfl⟩ := Document.hoist_settles hk (normalize_eq_ok.mp hd).1
  obtain ⟨_, -, hrest⟩ := bind_eq_ok.mp hconvert
  obtain ⟨es, hes, hrest⟩ := bind_eq_ok.mp hrest
  cases hrest
  have hop : (d.settle h.entryOf h.table).operations[i]? =
      some (path, item.settle h.entryOf, method, o.settle h.entryOf) := by
    rw [Document.operations_settle, List.getElem?_map, ho]
    rfl
  obtain ⟨e, he, hconv⟩ := exists_getElem?_of_mapM hes hop
  have hsettled : List.Forall₂
      (Parameter.LeadsTo (d.settle h.entryOf h.table).components.parameters)
      ((item.settle h.entryOf).parameters ++ (o.settle h.entryOf).parameters) ps := hps
  obtain ⟨e', he', hmerges⟩ := exists_convert_merges path method hsettled
  cases hconv.symm.trans he'
  exact ⟨e, he, hmerges⟩

/-- A parameter that is a text. -/
def textParameter (name place : String) (required : Bool) : Parameter :=
  ⟨none, name, place, none, required, some .text⟩

/-- A parameter that refers to a component. -/
def pageReference : Parameter := ⟨some (parameterPrefix ++ "Page"), "", "", none, false, none⟩

/-- The posts of a user, by pages. The operation declares the flag of its path again, the user is
declared in the path only, and the posts have a placeholder that is not declared. -/
def posts : Document where
  version := none
  info := some ⟨some "Sample", none, none⟩
  servers := []
  paths := some [("/users/\x7bid\x7d/posts/\x7bpost\x7d", {
    get := some {
      operationId := some "posts"
      summary := none
      description := none
      tags := []
      parameters := [textParameter "X-Trace" "header" false, textParameter "drafts" "query" true]
      requestBody := none
      responses := []
    }
    put := none
    post := none
    delete := none
    options := none
    head := none
    patch := none
    trace := none
    parameters := [textParameter "drafts" "query" false, pageReference,
      textParameter "id" "path" true]
  })]
  components := ⟨[], [("Page", textParameter "page" "query" false)], []⟩
  security := []

/-- The flag keeps its place before the page and is required by its last declaration. -/
theorem describe_posts_mergesParameters : ∃ path item method o,
    posts.operations[0]? = some (path, item, method, o) ∧
    (Table.keys posts.components.schemas).Nodup ∧ ∃ ps,
      List.Forall₂ (Parameter.LeadsTo posts.components.parameters)
        (item.parameters ++ o.parameters) ps ∧
      ∃ a e, posts.describe = .ok a ∧ a.endpoints[0]? = some e ∧ Merges ps e ∧
        e.queryParameters.map (fun q => (q.name, q.nullable)) =
          [("drafts", false), ("page", true)] ∧
        e.pathParameters.map (·.name) = ["id", "post"] := by
  have hk : (Table.keys posts.components.schemas).Nodup := by decide
  have hrun : posts.describe.toOption.map (fun a => a.endpoints.map fun e =>
      (e.queryParameters.map fun q => (q.name, q.nullable), e.pathParameters.map (·.name))) =
      some [([("drafts", false), ("page", true)], ["id", "post"])] := by decide +kernel
  obtain ⟨a, ha, hnames⟩ := toOption_map_eq_some.mp hrun
  have hps : List.Forall₂ (Parameter.LeadsTo posts.components.parameters)
      [textParameter "drafts" "query" false, pageReference, textParameter "id" "path" true,
        textParameter "X-Trace" "header" false, textParameter "drafts" "query" true]
      [textParameter "drafts" "query" false, textParameter "page" "query" false,
        textParameter "id" "path" true, textParameter "X-Trace" "header" false,
        textParameter "drafts" "query" true] :=
    .cons (.own rfl) (.cons (.component rfl rfl) (.cons (.own rfl) (.cons (.own rfl)
      (.cons (.own rfl) .nil))))
  obtain ⟨e, he, hmerges⟩ := (describe_mergesParameters (i := 0) hk rfl hps).2 ha
  have hmapped := List.mem_map_of_mem (List.mem_of_getElem? he)
    (f := fun e : Api.Endpoint =>
      (e.queryParameters.map fun q => (q.name, q.nullable), e.pathParameters.map (·.name)))
  rw [hnames, List.mem_singleton, Prod.mk.injEq] at hmapped
  exact ⟨_, _, _, _, rfl, hk, _, hps, a, e, ha, he, hmerges, hmapped⟩

end OpenApi
end SdkSmith
