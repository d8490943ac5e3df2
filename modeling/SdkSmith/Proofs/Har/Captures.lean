import Mathlib.Data.List.Infix
import SdkSmith.Proofs.Client.Plan.Grouping
import SdkSmith.Proofs.Declared

/-!
The endpoints of an archive. Requests with one method and one path make one endpoint, in the place
of the first of them; it has the query names of all of them, each once and where it comes first.
-/
namespace SdkSmith

namespace Text
variable {mark s : List Char}

theorem dropLead?_isSome : (dropLead? mark s).isSome ↔ mark <+: s := by
  rw [Option.isSome_iff_exists]
  constructor
  · rintro ⟨r, hr⟩
    exact ⟨r, (dropLead?_eq_some.mp hr).symm⟩
  · rintro ⟨r, hr⟩
    exact ⟨r, dropLead?_eq_some.mpr hr.symm⟩

theorem cutAt?_isSome : (cutAt? mark s).isSome ↔ mark <:+: s := by
  induction s with
  | nil =>
    rw [cutAt?, List.infix_nil, ← List.isEmpty_iff]
    split <;> simp_all
  | cons c s ih =>
    rw [cutAt?, List.infix_cons_iff, ← dropLead?_isSome, ← ih]
    cases dropLead? mark (c :: s) <;> simp

theorem occurs_eq (part s : String) : occurs part s = decide (part.toList <:+: s.toList) := by
  rw [Bool.eq_iff_iff, decide_eq_true_iff]
  exact cutAt?_isSome

/-- The text of ASCII bytes has a character for each of them. -/
theorem ofUtf8_ascii {bs : List Nat} (h : ∀ b ∈ bs, b < 0x80) : ofUtf8 bs = bs.map Char.ofNat := by
  unfold ofUtf8
  induction bs with
  | nil => rw [ofUtf8From, List.map_nil]
  | cons b bs ih =>
    have hrest : ∀ x ∈ bs, x < 0x80 := fun x hx => h x (.tail b hx)
    rw [ofUtf8From, ofUtf8From.lead, if_pos (h b List.mem_cons_self), ih hrest, List.map_cons]

end Text

theorem Url.formText_ascii {s : List Char}
    (h : ∀ b ∈ percentDecode (Text.utf8 (s.map fun c => if c = '+' then ' ' else c)), b < 0x80) :
    formText s = String.ofList ((percentDecode
      (Text.utf8 (s.map fun c => if c = '+' then ' ' else c))).map Char.ofNat) := by
  rw [formText, Text.ofUtf8_ascii h]

namespace Har

variable {read : Url.Reader} {marker : String} {rs : List Request} {h : Hit} {hs : List Hit}
  {names new : List String} {archive : Archive} {a : Api.Description}

/-- What requests have in common that make one endpoint. -/
def Hit.key (h : Hit) : Api.HttpMethod × String := (h.method, h.path)

/-- Whether a hit has the parts of a request: its method and, from its URL, the path, the names in
the query and the origin. -/
structure Hit.IsOf (read : Url.Reader) (r : Request) (h : Hit) : Prop where
  method : Api.HttpMethod.parse r.method = .ok h.method
  url : ∃ u, read r.url = .ok u ∧ h.path = u.path ∧ h.names = u.queryPairs.map (·.1) ∧
    h.origin = u.origin

/-- The names in the queries of the requests with a key, each where it comes first. -/
def namesFor (key : Api.HttpMethod × String) (hs : List Hit) : List String :=
  ((withKey Hit.key key hs).flatMap (·.names)).eraseDups

/-- Whether an endpoint is what the requests with a key collapse to: it has their method, the
segments of their path and their query names, and no parameters in other places. -/
structure Collapses (hs : List Hit) (key : Api.HttpMethod × String) (e : Api.Endpoint) : Prop where
  method : e.method = key.1
  segments : e.segments = Api.Endpoint.segmentsOf key.2
  query : e.queryParameters = (namesFor key hs).map queryParameter
  others : e.pathParameters = [] ∧ e.bodyParameters = [] ∧ e.headerParameters = []

theorem isOf_of_hit {place : Nat} {r : Request} (hhit : hit read place r = .ok h) :
    h.IsOf read r := by
  obtain ⟨method, u, hmethod, hu, rfl⟩ := hit_eq_ok hhit
  exact ⟨hmethod, u, hu, rfl, rfl, rfl⟩

/-! Merging -/

/-- Names that are added to others, each once, are those of both, each once. -/
theorem addNames_eraseDups (names new : List String) :
    addNames names.eraseDups new = (names ++ new).eraseDups := by
  induction new generalizing names with
  | nil => rw [List.append_nil, addNames, List.foldl_nil]
  | cons n new ih =>
    have hstep : (if names.eraseDups.contains n then names.eraseDups
        else names.eraseDups ++ [n]) = (names ++ [n]).eraseDups := by
      have hseen := keysSeen_append_singleton (f := id) names n
      simp only [keysSeen, List.map_id, id_eq] at hseen
      simp only [hseen, List.contains_iff_mem]
    rw [addNames, List.foldl_cons, hstep]
    have hrest := ih (names ++ [n])
    rwa [addNames, List.append_assoc] at hrest

theorem merge_append_singleton (hs : List Hit) (h : Hit) : merge (hs ++ [h]) =
    Table.put h.key (addNames ((Table.find? h.key (merge hs)).getD []) h.names) (merge hs) := by
  rw [merge, List.foldl_append]
  rfl

/-- One more request with a key adds its names, and to no other key. -/
theorem namesFor_append_singleton (key : Api.HttpMethod × String) (hs : List Hit) (h : Hit) :
    namesFor key (hs ++ [h]) =
      if h.key = key then addNames (namesFor key hs) h.names else namesFor key hs := by
  rw [namesFor, withKey_append_singleton]
  split
  · rw [namesFor, addNames_eraseDups, List.flatMap_append, List.flatMap_singleton]
  · rfl

/-- The keys of merged requests are in the order in which they are first seen. -/
theorem keys_merge (hs : List Hit) : Table.keys (merge hs) = keysSeen Hit.key hs := by
  induction hs using List.reverseRecOn with
  | nil => rfl
  | append_singleton hs h ih =>
    rw [merge_append_singleton, keysSeen_append_singleton, ← ih]
    split
    · exact Table.keys_put ‹_›
    · rw [Table.put_of_not_mem ‹_›, Table.keys_append]
      rfl

theorem find?_merge (key : Api.HttpMethod × String) (hs : List Hit) :
    (Table.find? key (merge hs)).getD [] = namesFor key hs := by
  induction hs using List.reverseRecOn with
  | nil => rfl
  | append_singleton hs h ih =>
    rw [merge_append_singleton, namesFor_append_singleton]
    by_cases hkey : h.key = key
    · subst hkey
      rw [Table.find?_put, if_pos rfl, Option.getD_some, ih]
    · rw [Table.find?_put_of_ne hkey, if_neg hkey, ih]

/-- Merged requests are told by their keys: each has the names for it. -/
theorem merge_eq (hs : List Hit) :
    merge hs = (keysSeen Hit.key hs).map fun key => (key, namesFor key hs) := by
  have hk : (Table.keys (merge hs)).Nodup := keys_merge hs ▸ nodup_keysSeen _ _
  have hself : (merge hs).map (fun x => (x.1, namesFor x.1 hs)) = merge hs := by
    conv_rhs => rw [← List.map_id (merge hs)]
    refine List.map_congr_left fun x hx => ?_
    rw [← find?_merge, Table.find?_of_mem hk hx]
    rfl
  rw [← keys_merge, Table.keys, List.map_map]
  exact hself.symm

theorem collapses_endpoint (hs : List Hit) (key : Api.HttpMethod × String) :
    Collapses hs key (endpoint key (namesFor key hs)) :=
  ⟨rfl, rfl, rfl, rfl, rfl, rfl⟩

theorem Archive.describe_eq_ok (h : archive.describe read marker = .ok a) :
    ∃ rs hs, archive.log = some (some rs) ∧ hits read marker 0 rs = .ok hs ∧
      a.baseUrl = ⟨(hs.head?.map (·.origin)).getD "", []⟩ ∧
      a.endpoints = (merge hs).map fun x => endpoint x.1 x.2 := by
  unfold describe at h
  split at h
  · cases h
  · cases h
  · rename_i rs hlog
    obtain ⟨hs, hhits, h⟩ := bind_eq_ok.mp h
    cases h
    exact ⟨rs, hs, hlog, hhits, rfl, rfl⟩

/-- The endpoints of an archive, one for each method and path of the requests that have the marker
in their URL, in the order in which these are first seen. Each has the query names of all requests
with its method and path. The base URL is the origin of the first request, if there is one. -/
theorem Archive.describe_collapses (h : archive.describe read marker = .ok a) : ∃ rs hs,
    archive.log = some (some rs) ∧
    List.Forall₂ (Hit.IsOf read) (rs.filter fun r => marker.toList <:+: r.url.toList) hs ∧
    (keysSeen Hit.key hs).Nodup ∧
    List.Forall₂ (Collapses hs) (keysSeen Hit.key hs) a.endpoints ∧
    a.baseUrl = ⟨(hs.head?.map (·.origin)).getD "", []⟩ := by
  obtain ⟨rs, hs, hlog, hhits, hurl, hendpoints⟩ := describe_eq_ok h
  have hcounted := hits_eq_ok hhits
  simp only [Text.occurs_eq] at hcounted
  have hcollapses : List.Forall₂ (Collapses hs) (keysSeen Hit.key hs) a.endpoints := by
    rw [hendpoints, merge_eq, List.map_map, List.forall₂_map_right_iff]
    exact List.forall₂_same.mpr fun key _ => collapses_endpoint hs key
  exact ⟨rs, hs, hlog, hcounted.imp fun r x ⟨_, hx⟩ => isOf_of_hit hx, nodup_keysSeen Hit.key hs,
    hcollapses, hurl⟩

/-- Requests that come in any letter case, between others, and with queries that repeat names. -/
def visits : Archive := ⟨some (some [
  ⟨"GET", "http://[::1]/api/x?a&b=1&a=2"⟩,
  ⟨"GET", "http://[::3]/x"⟩,
  ⟨"POST", "http://[::1]/api/x"⟩,
  ⟨"get", "http://[::2]/api/x?c&b"⟩])⟩

theorem describe_visits : visits.describe Url.parts "/api/" = .ok { Api.Description.empty with
    baseUrl := ⟨"http://[::1]", []⟩
    endpoints := [endpoint (.get, "/api/x") ["a", "b", "c"], endpoint (.post, "/api/x") []] } := by
  have hfirst : hit Url.parts 0 ⟨"GET", "http://[::1]/api/x?a&b=1&a=2"⟩ = .ok ⟨.get, "/api/x",
      [Url.formText ['a'], Url.formText ['b'], Url.formText ['a']], "http://[::1]"⟩ := by rfl
  have hpost : hit Url.parts 2 ⟨"POST", "http://[::1]/api/x"⟩ =
      .ok ⟨.post, "/api/x", [], "http://[::1]"⟩ := by rfl
  have hagain : hit Url.parts 3 ⟨"get", "http://[::2]/api/x?c&b"⟩ = .ok ⟨.get, "/api/x",
      [Url.formText ['c'], Url.formText ['b']], "http://[::2]"⟩ := by rfl
  have ha : Url.formText ['a'] = "a" := Url.formText_ascii (by decide +kernel)
  have hb : Url.formText ['b'] = "b" := Url.formText_ascii (by decide +kernel)
  have hc : Url.formText ['c'] = "c" := Url.formText_ascii (by decide +kernel)
  have hother : Text.occurs "/api/" "http://[::3]/x" = false := by decide +kernel
  have hcounted : Text.occurs "/api/" "http://[::1]/api/x?a&b=1&a=2" ∧
      Text.occurs "/api/" "http://[::1]/api/x" ∧
      Text.occurs "/api/" "http://[::2]/api/x?c&b" := by decide +kernel
  simp only [Archive.describe, visits, describeRequests, hits, hcounted, hother, hfirst, hpost,
    hagain, ha, hb, hc]
  rfl

theorem visits_collapses : ∃ a rs hs, visits.describe Url.parts "/api/" = .ok a ∧
    visits.log = some (some rs) ∧
    List.Forall₂ (Hit.IsOf Url.parts)
      (rs.filter fun r => "/api/".toList <:+: r.url.toList) hs ∧
    List.Forall₂ (Collapses hs) (keysSeen Hit.key hs) a.endpoints ∧
    a.endpoints.map (fun e => (e.method, e.queryParameters.map (·.name))) =
      [(.get, ["a", "b", "c"]), (.post, [])] ∧
    a.baseUrl.url = "http://[::1]" := by
  obtain ⟨rs, hs, hlog, hcounted, -, hcollapses, -⟩ := Archive.describe_collapses describe_visits
  exact ⟨_, rs, hs, describe_visits, hlog, hcounted, hcollapses, rfl, rfl⟩

end Har
end SdkSmith
