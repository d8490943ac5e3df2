import Mathlib.Data.List.Induction
import SdkSmith.Proofs.Api.Segments
import SdkSmith.Proofs.OpenApi.Closed
import SdkSmith.Proofs.Postman.Visits
import SdkSmith.Source

/-!
Placeholders and the path parameters that name them. Documents and collections declare each
placeholder that no parameter names. Archives declare none, so a captured path has to be free of
what reads as a placeholder.
-/
namespace SdkSmith

namespace Api

namespace Endpoint

/-- Whether each placeholder is named by a path parameter, in camel case. -/
def Declares (e : Endpoint) : Prop :=
  ∀ n ∈ e.placeholders, ∃ p ∈ e.pathParameters, Naming.camelCase p.name = Naming.camelCase n

theorem declares_declarePlaceholders (e : Endpoint) : e.declarePlaceholders.Declares := by
  intro n hn
  by_cases hany : e.pathParameters.any fun p => Naming.camelCase p.name == Naming.camelCase n
  · obtain ⟨p, hp, hname⟩ := List.any_eq_true.mp hany
    exact ⟨p, List.mem_append_left _ hp, beq_iff_eq.mp hname⟩
  · have hundeclared : n ∈ e.undeclared := by
      rw [undeclared, List.mem_filter, Bool.not_eq_true']
      exact ⟨hn, Bool.eq_false_iff.mpr hany⟩
    exact ⟨.plain n .string, List.mem_append_right _ (List.mem_map_of_mem hundeclared), rfl⟩

/-- Where an endpoint is collected is no part of its path. -/
theorem Declares.of_collection {e : Endpoint} {collection : Option String}
    (h : ({ e with collection := collection } : Endpoint).Declares) : e.Declares := h

theorem declares_of_empty {e : Endpoint} (h : e.pathParameters = []) :
    e.Declares ↔ e.placeholders = [] := by
  rw [Declares, h, List.eq_nil_iff_forall_not_mem]
  simp

theorem mem_placeholders_plain {name path n : String} {method : HttpMethod} :
    n ∈ (plain name method path).placeholders ↔ n ≠ "" ∧ ":" ++ n ∈ Text.split '/' path := by
  rw [placeholders, plain, segmentsOf, List.mem_filterMap]
  constructor
  · rintro ⟨segment, hsegment, hname⟩
    obtain ⟨text, htext, rfl⟩ := List.mem_map.mp hsegment
    obtain ⟨hne, rfl⟩ := PathSegment.name?_parse.mp hname
    exact ⟨hne, (List.mem_filter.mp htext).1⟩
  · rintro ⟨hne, hmem⟩
    have hkept : ":" ++ n ∈ (Text.split '/' path).filter fun s => !s.isEmpty := by
      rw [List.mem_filter, Bool.not_eq_true', String.isEmpty_eq_false_iff]
      refine ⟨hmem, fun hempty => ?_⟩
      have hcolon := congrArg String.length hempty
      simp at hcolon
    exact ⟨_, List.mem_map_of_mem hkept, PathSegment.name?_parse.mpr ⟨hne, rfl⟩⟩

end Endpoint
end Api

/-! Documents and collections -/

namespace OpenApi

theorem Document.declares_describe {d : Document} {a : Api.Description}
    (h : d.describe = .ok a) : ∀ e ∈ a.endpoints, e.Declares := by
  obtain ⟨d', title, about, -, h⟩ := describe_eq_ok h
  obtain ⟨c, -, h⟩ := bind_eq_ok.mp h
  obtain ⟨es, hes, h⟩ := bind_eq_ok.mp h
  cases h
  intro e he
  obtain ⟨p, -, hconvert⟩ := mem_of_mapM hes he
  obtain ⟨ps, -, hconvert⟩ := bind_eq_ok.mp hconvert
  cases hconvert
  exact Api.Endpoint.declares_declarePlaceholders _

end OpenApi

namespace Postman

theorem Item.Gives.declares {i : Item} {e : Api.Endpoint} (h : i.Gives e) : e.Declares := by
  obtain ⟨method, heq⟩ := Item.endpoint_eq_ok h
  have hdeclares := heq ▸ Api.Endpoint.declares_declarePlaceholders _
  exact hdeclares.of_collection

theorem declares_describe {v : Json} {a : Api.Description} (h : describe v = .ok a) :
    ∀ e ∈ a.endpoints, e.Declares := by
  unfold describe at h
  split at h
  · intro e he
    obtain ⟨i, -, hgives⟩ := exists_of_mem_right (Collection.describe_gives h) he
    exact hgives.declares
  · cases h

end Postman

/-! Archives -/

namespace Har

variable {read : Url.Reader} {marker : String} {i : Nat} {r : Request} {rs : List Request} {x : Hit}
  {hs : List Hit}
  {a : Api.Description} {e : Api.Endpoint}

/-- Requests that count, with what each gives. -/
theorem hits_eq_ok (h : hits read marker i rs = .ok hs) :
    List.Forall₂ (fun r x => ∃ place, hit read place r = .ok x)
      (rs.filter fun r => Text.occurs marker r.url) hs := by
  induction rs generalizing i hs with
  | nil =>
    cases h
    exact .nil
  | cons r rs ih =>
    rw [hits] at h
    split at h
    · rename_i hcounts
      obtain ⟨x, hx, h⟩ := bind_eq_ok.mp h
      obtain ⟨xs, hxs, h⟩ := bind_eq_ok.mp h
      cases h
      rw [List.filter_cons, if_pos hcounts]
      exact .cons ⟨i, hx⟩ (ih hxs)
    · rename_i hcounts
      rw [List.filter_cons, if_neg hcounts]
      exact ih h

theorem hit_eq_ok (h : hit read i r = .ok x) : ∃ method u,
    Api.HttpMethod.parse r.method = .ok method ∧ read r.url = .ok u ∧
      x = ⟨method, u.path, u.queryPairs.map (·.1), u.origin⟩ := by
  unfold hit at h
  split at h
  · cases h
  · rename_i u hu
    obtain ⟨method, hmethod, h⟩ := bind_eq_ok.mp h
    cases h
    exact ⟨method, u, hmethod, hu, rfl⟩

/-- The methods and paths of merged requests are those of the requests. -/
theorem mem_keys_merge {key : Api.HttpMethod × String} :
    key ∈ Table.keys (merge hs) ↔ ∃ h ∈ hs, (h.method, h.path) = key := by
  induction hs using List.reverseRecOn with
  | nil => simp [merge]
  | append_singleton hs h ih =>
    rw [merge, List.foldl_append, List.foldl_cons, List.foldl_nil, Table.mem_keys_put]
    change key ∈ Table.keys (merge hs) ∨ _ ↔ _
    rw [ih]
    constructor
    · rintro (⟨h', hmem, hkey⟩ | rfl)
      · exact ⟨h', List.mem_append_left _ hmem, hkey⟩
      · exact ⟨h, List.mem_append_right _ List.mem_cons_self, rfl⟩
    · rintro ⟨h', hmem, hkey⟩
      rcases List.mem_append.mp hmem with hmem | hmem
      · exact Or.inl ⟨h', hmem, hkey⟩
      · rw [List.mem_singleton.mp hmem] at hkey
        exact Or.inr hkey.symm

/-- Endpoints of an archive have no path parameters. -/
theorem declares_endpoint (key : Api.HttpMethod × String) (names : List String) :
    (endpoint key names).Declares ↔ ∀ name, name ≠ "" → ":" ++ name ∉ Text.split '/' key.2 := by
  have hplaceholders : (endpoint key names).placeholders =
      (Api.Endpoint.plain "" key.1 key.2).placeholders := rfl
  rw [Api.Endpoint.declares_of_empty rfl, hplaceholders, List.eq_nil_iff_forall_not_mem]
  simp only [Api.Endpoint.mem_placeholders_plain, not_and]

theorem describeRequests_declares (h : describeRequests read marker rs = .ok a) :
    (∀ e ∈ a.endpoints, e.Declares) ↔ ∀ r ∈ rs, Text.occurs marker r.url → ∀ u,
      read r.url = .ok u → ∀ name, name ≠ "" → ":" ++ name ∉ Text.split '/' u.path := by
  obtain ⟨hs, hhits, h⟩ := bind_eq_ok.mp h
  cases h
  have hcounted := hits_eq_ok hhits
  constructor
  · intro hall r hr hoccurs u hu
    have hkept : r ∈ rs.filter fun r => Text.occurs marker r.url :=
      List.mem_filter.mpr ⟨hr, hoccurs⟩
    obtain ⟨x, hx, place, hhit⟩ := exists_of_mem_left hcounted hkept
    obtain ⟨method, u', -, hu', rfl⟩ := hit_eq_ok hhit
    cases hu.symm.trans hu'
    obtain ⟨p, hp, hkey⟩ := List.mem_map.mp (mem_keys_merge.mpr ⟨_, hx, rfl⟩)
    have hdeclares := (declares_endpoint p.1 p.2).mp (hall _ (List.mem_map_of_mem hp))
    rw [hkey] at hdeclares
    exact hdeclares
  · intro hall e he
    obtain ⟨p, hp, rfl⟩ := List.mem_map.mp he
    obtain ⟨x, hx, hkey⟩ := mem_keys_merge.mp (Table.mem_keys_of_mem hp)
    obtain ⟨r, hr, place, hhit⟩ := exists_of_mem_right hcounted hx
    obtain ⟨method, u, -, hu, rfl⟩ := hit_eq_ok hhit
    rw [declares_endpoint, ← hkey]
    exact hall r (List.mem_filter.mp hr).1 (List.mem_filter.mp hr).2 u hu

/-- Whether no path that counts in an archive has a component that reads as a placeholder. -/
def Archive.IsLiteral (read : Url.Reader) (marker : String) (archive : Archive) : Prop :=
  ∀ rs, archive.log = some (some rs) → ∀ r ∈ rs, Text.occurs marker r.url → ∀ u,
    read r.url = .ok u → ∀ name, name ≠ "" → ":" ++ name ∉ Text.split '/' u.path

theorem Archive.declares_describe {archive : Archive} (h : archive.describe read marker = .ok a) :
    (∀ e ∈ a.endpoints, e.Declares) ↔ archive.IsLiteral read marker := by
  unfold describe at h
  split at h
  · cases h
  · cases h
  · rename_i rs hlog
    rw [describeRequests_declares h, IsLiteral, hlog]
    exact ⟨fun hall _ hrs => by cases hrs; exact hall, fun hall => hall rs rfl⟩

end Har

namespace Source

variable {s : Source} {read : Url.Reader} {a : Api.Description}

/-- In every description that a text gives, each placeholder has a path parameter of its name, in
camel case, exactly if the text is no archive with a placeholder in a path that counts. This is so
however URLs are read. -/
theorem describe_declares (h : s.describe read = .ok a) : (∀ e ∈ a.endpoints, e.Declares) ↔
    (s.format = .har → ∀ archive, Har.decode s.text = .ok archive →
      archive.IsLiteral read Har.defaultMarker) := by
  unfold describe at h
  split at h
  · rename_i hformat
    obtain ⟨d, -, h⟩ := bind_eq_ok.mp h
    refine iff_of_true (OpenApi.Document.declares_describe h) fun hhar => ?_
    cases hformat.symm.trans hhar
  · rename_i hformat
    obtain ⟨v, -, h⟩ := bind_eq_ok.mp h
    refine iff_of_true (Postman.declares_describe h) fun hhar => ?_
    cases hformat.symm.trans hhar
  · rename_i hformat
    obtain ⟨archive, hdecode, h⟩ := bind_eq_ok.mp h
    rw [Har.Archive.declares_describe h]
    constructor
    · intro hliteral _ archive' hdecode'
      cases hdecode.symm.trans hdecode'
      exact hliteral
    · intro hall
      exact hall hformat archive hdecode

/-- A collection with a variable in a path. -/
def orders : Source := ⟨.postman,
  "\x7b\"info\": \x7b\"name\": \"Shop\"\x7d, \"item\": [" ++
  "\x7b\"name\": \"Get order\", " ++
  "\"request\": \"https://shop.test/orders/\x7b\x7bid\x7d\x7d\"\x7d]\x7d"⟩

theorem describe_orders_declares : ∃ a, orders.describe Url.parts = .ok a ∧
    a.endpoints.map (·.placeholders) = [["id"]] ∧ ∀ e ∈ a.endpoints, e.Declares := by
  have hrun : (orders.describe Url.parts).toOption.map (fun a => a.endpoints.map (·.placeholders)) =
      some [["id"]] := by decide +kernel
  obtain ⟨a, ha, hplaceholders⟩ := toOption_map_eq_some.mp hrun
  exact ⟨a, ha, hplaceholders, (describe_declares ha).mpr fun hhar => nomatch hhar⟩

/-- An archive with a path that was captured before its variable was filled in. -/
def capture : Source := ⟨.har,
  "\x7b\"log\": \x7b\"entries\": [\x7b\"request\": \x7b" ++
  "\"method\": \"GET\", \"url\": \"http://[::1]:8080/api/orders/:id\"\x7d\x7d]\x7d\x7d"⟩

/-- The captured variable becomes a placeholder, which no path parameter names. -/
theorem describe_capture_undeclared : ∃ a, capture.describe Url.parts = .ok a ∧
    ∃ e ∈ a.endpoints, e.placeholders = ["id"] ∧ e.pathParameters = [] ∧ ¬ e.Declares := by
  have hrun : (capture.describe Url.parts).toOption.map (fun a =>
      a.endpoints.map fun e => (e.placeholders, e.pathParameters.map (·.name))) =
      some [(["id"], [])] := by decide +kernel
  obtain ⟨a, ha, hendpoints⟩ := toOption_map_eq_some.mp hrun
  obtain ⟨e, he, hparts⟩ := List.mem_map.mp (hendpoints ▸ List.mem_singleton_self _)
  obtain ⟨hplaceholders, hnames⟩ := Prod.mk.inj hparts
  have hnone : e.pathParameters = [] := List.map_eq_nil_iff.mp hnames
  refine ⟨a, ha, e, he, hplaceholders, hnone, fun hdeclares => ?_⟩
  rw [Api.Endpoint.declares_of_empty hnone, hplaceholders] at hdeclares
  cases hdeclares

end Source
end SdkSmith
