import SdkSmith.Proofs.Api.Segments
import SdkSmith.Proofs.Client.Request.Placeholders
import SdkSmith.Proofs.OpenApi.Closed
import SdkSmith.Proofs.OpenApi.Hoist.Sharing

/-!
Path templates. A template is cut at its slashes, a segment that is a name in braces becomes a
placeholder, and every other segment is literal text, whatever braces are in it. The path of a
request puts the segments together again, with members in the place of placeholders.
-/
namespace SdkSmith

namespace Php

/-- The text of a part, given the values of properties. -/
def Part.fill (values : String → String) : Part → String
  | .literal text => text
  | .property _ target => values target

/-- The text that an expression makes, given the values of properties. -/
def Expr.fill? (values : String → String) : Expr → Option String
  | .literal (.string text) => some text
  | .interpolated parts => some (String.join (parts.map (Part.fill values)))
  | _ => none

end Php

namespace Client
open Php (Expr Part)

/-- The part of a path that a segment becomes. -/
def partOf (property : String → String) : Api.PathSegment → Part
  | .literal text => .literal text
  | .placeholder name => .property name (property name)

theorem join_endpointParts {g : Part → String} (hg : ∀ text, g (.literal text) = text)
    (property : String → String) (text : String) (segments : List Api.PathSegment) :
    String.join ((endpointParts property text segments).map g) =
      text ++ String.join (segments.map fun s => "/" ++ g (partOf property s)) := by
  induction segments generalizing text with
  | nil =>
    rw [endpointParts]
    split
    · rename_i hempty
      rw [String.isEmpty_iff.mp hempty]
      rfl
    · simp [hg]
  | cons segment segments ih =>
    cases segment with
    | literal t => simp [endpointParts, ih, partOf, hg, String.append_assoc]
    | placeholder name => simp [endpointParts, ih, partOf, hg, String.append_assoc]

theorem slash_intercalate (ts : List String) (hne : ts ≠ []) :
    "/" ++ "/".intercalate ts = String.join (ts.map ("/" ++ ·)) := by
  induction ts with
  | nil => exact absurd rfl hne
  | cons t ts ih =>
    rw [List.map_cons, String.join_cons]
    by_cases hts : ts = []
    · simp [hts]
    · rw [String.intercalate_cons_of_ne_nil hts, ← ih hts]
      simp [String.append_assoc]

/-- The expression for a path has parts that are put together to the segments of the path, each
with a slash before it, whatever text stands for a property. -/
theorem exists_endpointParts (c : Call) : ∃ ps,
    (c.endpointExpr = .interpolated ps ∨
      ∃ text, ps = [.literal text] ∧ c.endpointExpr = .string text) ∧
    ∀ g : Part → String, (∀ text, g (.literal text) = text) → String.join (ps.map g) =
      "/" ++ "/".intercalate (c.endpoint.segments.map fun s => g (partOf c.propertyFor s)) := by
  by_cases hempty : c.endpoint.segments = []
  · refine ⟨[.literal "/"], Or.inr ⟨"/", rfl, ?_⟩, ?_⟩
    · rw [Call.endpointExpr, hempty]
      rfl
    · intro g hg
      rw [hempty, List.map_singleton, hg]
      rfl
  · refine ⟨endpointParts c.propertyFor "" c.endpoint.segments, ?_, ?_⟩
    · rw [Call.endpointExpr, if_neg (by rwa [List.isEmpty_iff])]
      split
      · rename_i text heq
        exact Or.inr ⟨text, heq, rfl⟩
      · exact Or.inl rfl
    · intro g hg
      have hparts := join_endpointParts hg c.propertyFor "" c.endpoint.segments
      have hslashes := slash_intercalate
        (c.endpoint.segments.map fun s => g (partOf c.propertyFor s)) (by simpa using hempty)
      rw [List.map_map] at hslashes
      rw [hparts, String.empty_append]
      exact hslashes.symm

/-- The path of a request is its segments with slashes before them. -/
theorem fill_endpointExpr (c : Call) (values : String → String) :
    c.endpointExpr.fill? values = some ("/" ++ "/".intercalate
      (c.endpoint.segments.map fun g => (partOf c.propertyFor g).fill values)) := by
  obtain ⟨ps, hps, hjoin⟩ := exists_endpointParts c
  rw [← hjoin (Part.fill values) fun _ => rfl]
  rcases hps with heq | ⟨text, rfl, heq⟩
  · rw [heq]
    rfl
  · rw [heq]
    simp [Expr.string, Expr.fill?, Part.fill]

end Client

namespace OpenApi
open Naming (variableName)
open Client (partOf)
open Php (Part)

variable {d : Document} {o : Operation} {path : String} {item : PathItem}
  {method : Api.HttpMethod} {segment name : String} {ps : List ((String × String) × Parameter)}
  {named : Table Parameter}

/-! Segments -/

theorem placeholderSegment_eq :
    placeholderSegment = Api.PathSegment.respell "\x7b" "\x7d" := rfl

/-- The segments of a template. -/
def templateSegments (path : String) : List String :=
  (Text.split '/' path).filter fun segment => !segment.isEmpty

/-- Each segment of a template is one of the path. -/
theorem segmentsOf_placeholderPath (path : String) :
    Api.Endpoint.segmentsOf (placeholderPath path) =
      (templateSegments path).map fun segment => .parse (placeholderSegment segment) := by
  rw [placeholderPath, placeholderSegment_eq, Api.Endpoint.segmentsOf_respell, templateSegments]
  exact fun t ht => Text.not_mem_of_mem_split ht

theorem parse_token (h : name ≠ "") :
    Api.PathSegment.parse (placeholderSegment ("\x7b" ++ name ++ "\x7d")) = .placeholder name := by
  rw [placeholderSegment_eq, Api.PathSegment.respell_token h, Api.PathSegment.parse_colon h]

theorem parse_literal (h : ∀ name, name ≠ "" → segment ≠ "\x7b" ++ name ++ "\x7d")
    (hcolon : segment.toList.head? ≠ some ':') :
    Api.PathSegment.parse (placeholderSegment segment) = .literal segment := by
  rw [placeholderSegment_eq, Api.PathSegment.respell_text h, Api.PathSegment.parse_text]
  rintro name - rfl
  exact hcolon (by simp)

/-! Declared parameters -/

theorem parametersOn_keys {location : String} (h : o.parametersOn named item location = .ok ps) :
    (Table.keys ps).Nodup ∧ ∀ x ∈ ps, x.1 = (x.2.name, x.2.location) := by
  obtain ⟨qs, -, hps⟩ := bind_eq_ok.mp h
  cases hps
  refine ⟨Table.nodup_putAll List.nodup_nil, fun x hx => ?_⟩
  rcases Table.mem_putAll hx with hx | hx
  · cases hx
  · obtain ⟨q, -, rfl⟩ := List.mem_map.mp hx
    rfl

/-- The parameter of the API that a path parameter becomes. -/
def Parameter.inPath (p : Parameter) : Api.Parameter :=
  { p.convert with nullable := false }

theorem convert_eq_ok {c : Components} {e : Api.Endpoint}
    (h : o.convert c path item method = .ok e) : ∃ ps,
      o.parametersOn c.parameters item (method.name ++ " " ++ path) = .ok ps ∧
      e.segments = Api.Endpoint.segmentsOf (placeholderPath path) ∧
      (ps.filter fun x => x.1.2 == "path").map (·.2.inPath) <+: e.pathParameters := by
  obtain ⟨ps, hps, hrest⟩ := bind_eq_ok.mp h
  cases hrest
  have hdeclared : (ps.filter fun x => x.1.2 == "path").map (·.2.inPath) =
      ((ps.filter fun x => x.1.2 == "path").map (·.2.convert)).map
        fun p => { p with nullable := false } := by
    rw [List.map_map]
    rfl
  have hkept (e : Api.Endpoint) : e.declarePlaceholders.segments = e.segments := rfl
  have hplain (name path : String) (method : Api.HttpMethod) :
      (Api.Endpoint.plain name method path).segments = Api.Endpoint.segmentsOf path := rfl
  refine ⟨ps, hps, ?_, ?_⟩
  · simp only [hkept, hplain]
  · rw [hdeclared]
    exact List.prefix_append _ _

/-- Whether the variable of a declared name stands for nothing else in a path: no other path
parameter has it, and no member was given it as a duplicate of its own variable. -/
structure HasOwnVariable (ps : List ((String × String) × Parameter)) (c : Client.Call)
    (name : String) : Prop where
  unique : ∀ q, (q, "path") ∈ Table.keys ps → variableName q = variableName name → q = name
  free : ∀ m ∈ c.membersIn .path, m.name = variableName name →
    variableName m.parameter.name = m.name

theorem find?_inPath {p : Parameter} (hkeys : (Table.keys ps).Nodup)
    (hnames : ∀ x ∈ ps, x.1 = (x.2.name, x.2.location)) (hp : ((name, "path"), p) ∈ ps)
    (hunique : ∀ q, (q, "path") ∈ Table.keys ps → variableName q = variableName name → q = name)
    (more : List Api.Parameter) :
    ((ps.filter fun x => x.1.2 == "path").map (·.2.inPath) ++ more).find?
      (fun q => variableName q.name == variableName name) = some p.inPath := by
  have hname : p.inPath.name = name := (congrArg Prod.fst (hnames _ hp)).symm
  have hsome : (((ps.filter fun x => x.1.2 == "path").map (·.2.inPath)).find?
      fun q => variableName q.name == variableName name).isSome := by
    rw [List.find?_isSome]
    refine ⟨p.inPath, List.mem_map.mpr ⟨_, List.mem_filter.mpr ⟨hp, beq_self_eq_true _⟩, rfl⟩, ?_⟩
    rw [hname, beq_self_eq_true]
  obtain ⟨q, hq⟩ := Option.isSome_iff_exists.mp hsome
  rw [List.find?_append, hq, Option.some_or, Option.some_inj]
  have hvariable := List.find?_some hq
  obtain ⟨x, hx, rfl⟩ := List.mem_map.mp (List.mem_of_find?_eq_some hq)
  obtain ⟨hmem, hplace⟩ := List.mem_filter.mp hx
  rw [beq_iff_eq] at hvariable hplace
  have hkey : x.1 = (x.2.inPath.name, "path") := by
    have hkeyName : x.1.1 = x.2.name := congrArg Prod.fst (hnames x hmem)
    exact Prod.ext hkeyName hplace
  have hsame : x.2.inPath.name = name := by
    apply hunique _ _ hvariable
    rw [← hkey]
    exact Table.mem_keys_of_mem hmem
  rw [hsame] at hkey
  have hfind : Table.find? (name, "path") ps = some x.2 := Table.find?_of_mem hkeys (hkey ▸ hmem)
  rw [Table.find?_of_mem hkeys hp, Option.some_inj] at hfind
  rw [hfind]

/-- What a segment of a template becomes in the path of a request: text stays as it is, and the
name of a declared parameter in braces is replaced by the parameter's member. -/
structure Becomes (ps : List ((String × String) × Parameter)) (c : Client.Call)
    (segment : String) (part : Part) : Prop where
  text : (∀ name, name ≠ "" → segment ≠ "\x7b" ++ name ++ "\x7d") →
    segment.toList.head? ≠ some ':' → part = .literal segment
  token : ∀ name p, name ≠ "" → segment = "\x7b" ++ name ++ "\x7d" → ((name, "path"), p) ∈ ps →
    HasOwnVariable ps c name →
      ∃ m ∈ c.membersIn .path, m.parameter = p.inPath ∧ part = .property name m.name

theorem becomes {c : Client.Call}
    (hpath : c.membersIn .path = (Client.pathMembers c.endpoint).members)
    (hkeys : (Table.keys ps).Nodup) (hnames : ∀ x ∈ ps, x.1 = (x.2.name, x.2.location))
    (hsegments : c.endpoint.segments = Api.Endpoint.segmentsOf (placeholderPath path))
    (hparameters : (ps.filter fun x => x.1.2 == "path").map (·.2.inPath) <+:
      c.endpoint.pathParameters)
    (hsegment : segment ∈ templateSegments path) :
    Becomes ps c segment (partOf c.propertyFor (.parse (placeholderSegment segment))) := by
  constructor
  · intro hplain hcolon
    rw [parse_literal hplain hcolon]
    rfl
  · rintro name p hne rfl hp hown
    have hn : name ∈ c.endpoint.placeholders := by
      rw [Api.Endpoint.placeholders, hsegments, segmentsOf_placeholderPath, List.filterMap_map]
      refine List.mem_filterMap.mpr ⟨_, hsegment, ?_⟩
      rw [Function.comp_apply, parse_token hne]
      rfl
    have hname : p.inPath.name = name := (congrArg Prod.fst (hnames _ hp)).symm
    obtain ⟨more, hmore⟩ := hparameters
    have hfind := find?_inPath hkeys hnames hp hown.unique more
    rw [hmore] at hfind
    obtain ⟨m, hm, hparameter, hproperty⟩ :=
      Client.exists_propertyFor hpath hn hname hfind hown.free
    refine ⟨m, hm, hparameter, ?_⟩
    rw [parse_token hne, partOf, hproperty]

/-- Each operation has a request, and its path is put together from the segments of the template,
one by one: text as it is, whatever braces are in it, and in the place of a declared name in braces,
as often as it is there, the member of its parameter. -/
theorem describe_fills {a : Api.Description} {i : Nat}
    (hk : (Table.keys d.components.schemas).Nodup) (ha : d.describe = .ok a)
    (ho : d.operations[i]? = some (path, item, method, o)) :
    ∃ e ps, a.endpoints[i]? = some e ∧
      o.parametersOn d.components.parameters item (method.name ++ " " ++ path) = .ok ps ∧
      ∀ s : Settings,
        (∃ r ∈ (Client.Plan.ofDescription a s).resources, ∃ c ∈ r.calls, c.endpoint = e) ∧
        ∀ classes : Client.DtoClasses, ∀ r ∈ (Client.Plan.ofDescription a s).resources,
          ∀ c ∈ r.calls, c.endpoint = e → ∃ m x parts,
            (Client.requestFile a s classes r c).declaration.method? "resolveEndpoint" = some m ∧
            m.returned? = some x ∧
            (∀ values,
              x.fill? values = some ("/" ++ "/".intercalate (parts.map (Part.fill values)))) ∧
            List.Forall₂ (Becomes ps c) (templateSegments path) parts := by
  obtain ⟨d', title, about, hd, hconvert⟩ := describe_eq_ok ha
  obtain ⟨h, -, rfl⟩ := Document.hoist_settles hk (normalize_eq_ok.mp hd).1
  obtain ⟨_, -, hrest⟩ := bind_eq_ok.mp hconvert
  obtain ⟨es, hes, hrest⟩ := bind_eq_ok.mp hrest
  cases hrest
  have hop : (d.settle h.entryOf h.table).operations[i]? =
      some (path, item.settle h.entryOf, method, o.settle h.entryOf) := by
    rw [Document.operations_settle, List.getElem?_map, ho]
    rfl
  obtain ⟨e, he, hconv⟩ := exists_getElem?_of_mapM hes hop
  obtain ⟨ps, hps, hsegments, hparameters⟩ := convert_eq_ok hconv
  obtain ⟨hkeys, hnames⟩ := parametersOn_keys hps
  refine ⟨e, ps, he, hps, fun s => ⟨Client.Plan.exists_call (List.mem_of_getElem? he), ?_⟩⟩
  rintro classes r hr c hc rfl
  have hpath := (Client.Call.arranged (Client.Plan.members_of_mem_calls hr hc)).path
  refine ⟨_, c.endpointExpr, (templateSegments path).map fun segment =>
    partOf c.propertyFor (.parse (placeholderSegment segment)),
    Client.resolveEndpoint_requestFile _ s classes r c, rfl, fun values => ?_, ?_⟩
  · rw [Client.fill_endpointExpr, hsegments, segmentsOf_placeholderPath, List.map_map, List.map_map]
    rfl
  · rw [List.forall₂_map_right_iff, List.forall₂_same]
    intro segment hsegment
    exact becomes hpath hkeys hnames hsegments hparameters hsegment

/-- The identifier in a path. -/
def identifier : Parameter := ⟨none, "id", "path", none, true, some .text⟩

/-- A document with one operation on a path, which has an identifier for a parameter. -/
def Document.identifying (path : String) : Document where
  version := none
  info := some ⟨some "Sample", none, none⟩
  servers := []
  paths := some [(path, {
    get := some {
      operationId := some "read"
      summary := none
      description := none
      tags := []
      parameters := [identifier]
      requestBody := none
      responses := []
    }
    put := none
    post := none
    delete := none
    options := none
    head := none
    patch := none
    trace := none
    parameters := []
  })]
  components := ⟨[], [], []⟩
  security := []

/-- An identifier as a segment, and the same in a file name. -/
def archive : Document := .identifying "/users/\x7bid\x7d/\x7bid\x7d.json"

theorem ne_token (h : segment.toList.getLast? ≠ some '\x7d') (name : String) :
    segment ≠ "\x7b" ++ name ++ "\x7d" := by
  rintro rfl
  rw [String.toList_append, List.getLast?_append] at h
  exact h rfl

/-- The identifier is put in the place of the segment, and the file name is left as it is. -/
theorem describe_archive_fills : (Table.keys archive.components.schemas).Nodup ∧
    ∃ a, archive.describe = .ok a ∧
      ∃ r ∈ (Client.Plan.ofDescription a (.new "Acme" "App")).resources, ∃ c ∈ r.calls, ∃ m x,
        (Client.requestFile a (.new "Acme" "App") [] r c).declaration.method? "resolveEndpoint" =
          some m ∧ m.returned? = some x ∧
        ∃ k ∈ c.membersIn .path, k.parameter = identifier.inPath ∧
          ∀ values, x.fill? values =
            some ("/users/" ++ values k.name ++ "/\x7bid\x7d.json") := by
  have hk : (Table.keys archive.components.schemas).Nodup := by decide
  have hrun : archive.describe.toOption.map (fun a =>
      (Client.Plan.ofDescription a (.new "Acme" "App")).resources.map fun r => r.calls.map fun c =>
        (c.membersIn .path).map fun k => (k.name, k.parameter.name)) =
      some [[[("id", "id")]]] := by decide +kernel
  obtain ⟨a, ha, hplan⟩ := toOption_map_eq_some.mp hrun
  obtain ⟨e, ps, he, hps, hfills⟩ := describe_fills (i := 0) hk ha rfl
  obtain rfl : [(("id", "path"), identifier)] = ps := Except.ok.inj hps
  obtain ⟨⟨r, hr, c, hc, rfl⟩, hfills⟩ := hfills (.new "Acme" "App")
  have hmembers : (c.membersIn .path).map (fun k => (k.name, k.parameter.name)) =
      [("id", "id")] := by
    have hcalls := List.mem_singleton.mp (hplan ▸ List.mem_map_of_mem hr)
    exact List.mem_singleton.mp (hcalls ▸ List.mem_map_of_mem hc)
  obtain ⟨m, x, parts, hm, hx, hfill, hparts⟩ := hfills [] r hr c hc rfl
  have hsegments : templateSegments "/users/\x7bid\x7d/\x7bid\x7d.json" =
      ["users", "\x7bid\x7d", "\x7bid\x7d.json"] := by decide +kernel
  rw [hsegments] at hparts
  rcases hparts with _ | ⟨husers, _ | ⟨hid, _ | ⟨hfile, ⟨⟩⟩⟩⟩
  have hown : HasOwnVariable [(("id", "path"), identifier)] c "id" := by
    refine ⟨fun q hq _ => congrArg Prod.fst (List.mem_singleton.mp hq), fun k hk _ => ?_⟩
    have hpair := List.mem_singleton.mp (hmembers ▸ List.mem_map_of_mem hk)
    obtain ⟨hname, hparameter⟩ := Prod.mk.inj hpair
    rw [hname, hparameter]
    decide +kernel
  have husersPart := husers.text (fun name _ => ne_token (by decide) name) (by decide)
  have hfilePart := hfile.text (fun name _ => ne_token (by decide) name) (by decide)
  obtain ⟨k, hkMem, hparameter, hidPart⟩ :=
    hid.token "id" identifier (by decide) (by decide) (List.mem_singleton_self _) hown
  refine ⟨hk, a, ha, r, hr, c, hc, m, x, hm, hx, k, hkMem, hparameter, fun values => ?_⟩
  rw [hfill, husersPart, hidPart, hfilePart]
  refine congrArg some (String.toList_inj.mp ?_)
  simp [Part.fill]

/-- An identifier in a file name. -/
def download : Document := .identifying "/files/\x7bid\x7d.json"

/-- The name in braces is sent as it is, though there is a member for it. -/
theorem describe_download_keeps : ∃ a, download.describe = .ok a ∧
    ∃ r ∈ (Client.Plan.ofDescription a (.new "Acme" "App")).resources, ∃ c ∈ r.calls, ∃ m x,
      (Client.requestFile a (.new "Acme" "App") [] r c).declaration.method? "resolveEndpoint" =
        some m ∧ m.returned? = some x ∧
      c.members.map (fun k => (k.name, k.parameter.name)) = [("id", "id")] ∧
      ∀ values, x.fill? values = some "/files/\x7bid\x7d.json" := by
  have hrun : download.describe.toOption.map (fun a =>
      (Client.Plan.ofDescription a (.new "Acme" "App")).resources.map fun r => r.calls.map fun c =>
        (c.members.map fun k => (k.name, k.parameter.name), c.endpoint.segments)) =
      some [[([("id", "id")], [.literal "files", .literal "\x7bid\x7d.json"])]] := by decide +kernel
  obtain ⟨a, ha, hplan⟩ := toOption_map_eq_some.mp hrun
  obtain ⟨r, hr, hcalls⟩ := List.mem_map.mp (hplan ▸ List.mem_singleton_self _)
  obtain ⟨c, hc, hvalues⟩ := List.mem_map.mp (hcalls ▸ List.mem_singleton_self _)
  obtain ⟨hmembers, hsegments⟩ := Prod.mk.inj hvalues
  refine ⟨a, ha, r, hr, c, hc, _, _, Client.resolveEndpoint_requestFile a _ [] r c, rfl, hmembers,
    fun values => ?_⟩
  rw [Client.fill_endpointExpr, hsegments]
  rfl

end OpenApi
end SdkSmith
