import SdkSmith.Proofs.Client.Sdk.Collisions
import SdkSmith.Proofs.Document.Reading
import SdkSmith.Proofs.Postman.Visits

/-!
The names under which a request made from a collection sends its values. They are keys of an array,
in which a later value replaces an earlier one, so a name that a query, the headers or a form lists
twice loses a value. The members of an example payload have distinct names.
-/
namespace SdkSmith

/-! Names on the wire -/

namespace Client
open Php (Expr File)

variable {d : Api.Description} {s : Settings} {sdk : Sdk} {r : Resource} {c : Call}
  {place : Place} {name : String}

/-- The entries of the array that a method of a class filters and returns. -/
def returnedEntries (f : File) (name : String) : List (Expr × Expr) :=
  match (f.declaration.method? name).bind (·.returned?) with
  | some (.call _ (.array entries :: _)) => entries
  | _ => []

/-- The entry for a name on the wire, with the value of a member. -/
def wireEntry (pair : String × String) : Expr × Expr :=
  (.string pair.1, .thisProperty pair.2)

/-- The name on the wire and the member of an entry. -/
def pairOfEntry? : Expr × Expr → Option (String × String)
  | (.literal (.string wire), .thisProperty name) => some (wire, name)
  | _ => none

theorem pairs_wireEntry (pairs : List (String × String)) :
    (pairs.map wireEntry).filterMap pairOfEntry? = pairs := by
  rw [List.filterMap_map]
  exact List.filterMap_some

/-- Whether the entries of an array have distinct keys, so that each member that they name has its
value in the array. -/
def KeepsValues (entries : List (Expr × Expr)) : Prop :=
  ∃ pairs : List (String × String), entries = pairs.map wireEntry ∧ (Table.keys pairs).Nodup ∧
    ∀ x ∈ pairs, Table.find? x.1 (Table.ofList pairs) = some x.2

theorem keepsValues_map (pairs : List (String × String)) :
    KeepsValues (pairs.map wireEntry) ↔ (Table.keys pairs).Nodup := by
  constructor
  · rintro ⟨pairs', heq, hdistinct, -⟩
    have hpairs := congrArg (List.filterMap pairOfEntry?) heq
    rw [pairs_wireEntry, pairs_wireEntry] at hpairs
    rwa [hpairs]
  · intro hdistinct
    refine ⟨pairs, rfl, hdistinct, ?_⟩
    rintro ⟨k, v⟩ hx
    exact Table.find?_putAll hdistinct hx

theorem returnedEntries_requestFile (d : Api.Description) (s : Settings) (classes : DtoClasses)
    (r : Resource) (c : Call) (h : place.accessor? = some name) :
    returnedEntries (requestFile d s classes r c) name =
      ((c.membersIn place).map fun m => (m.wireName, m.name)).map wireEntry := by
  rw [returnedEntries, accessor_requestFile d s classes r c h, head?_valuesMethods]
  by_cases hnone : c.membersIn place = []
  · rw [if_pos hnone, hnone]
    rfl
  · rw [if_neg hnone, List.map_map]
    rfl

/-- Whether a name is sent in a place. -/
def isSent (s : Settings) : Place → String → Bool
  | .path, _ => true
  | .body, n => !(s.ignoresBody n || Naming.isTypeAnnotation n)
  | .query, n => !(s.ignoresQuery n || Naming.isTypeAnnotation n)
  | .header, n => !(s.ignoresHeader n || Naming.isTypeAnnotation n)

/-- The parameters of an endpoint in a place besides the path. -/
def parametersIn (e : Api.Endpoint) : Place → List Api.Parameter
  | .path => []
  | .body => e.bodyParameters
  | .query => e.queryParameters
  | .header => e.headerParameters

theorem wireNames_membersIn (h : c.Arranged s) (hplace : place.accessor? = some name) :
    (c.membersIn place).map (·.wireName) =
      ((parametersIn c.endpoint place).map (·.name)).filter (isSent s place) := by
  have hnames : (c.membersIn place).map (·.wireName) =
      ((c.membersIn place).map (·.parameter)).map (·.name) := by
    rw [List.map_map]
    rfl
  rw [hnames, List.filter_map]
  cases place with
  | path => cases hplace
  | body => rw [h.body]; rfl
  | query => rw [h.query]; rfl
  | header => rw [h.header]; rfl

/-- The array of a request class keeps the values of a place exactly if the names that are sent
there are distinct. -/
theorem keepsValues_requestFile (d : Api.Description) (classes : DtoClasses) (r : Resource)
    (h : c.Arranged s) (hplace : place.accessor? = some name) :
    KeepsValues (returnedEntries (requestFile d s classes r c) name) ↔
      (((parametersIn c.endpoint place).map (·.name)).filter (isSent s place)).Nodup := by
  rw [returnedEntries_requestFile d s classes r c hplace, keepsValues_map,
    ← wireNames_membersIn h hplace, Table.keys, List.map_map]
  rfl

/-- Whether the names that are sent in each place are distinct. -/
def SendsOnce (s : Settings) (e : Api.Endpoint) : Prop :=
  ∀ place, (((parametersIn e place).map (·.name)).filter (isSent s place)).Nodup

theorem sendsOnce_iff (d : Api.Description) (classes : DtoClasses) (r : Resource)
    (h : c.Arranged s) : (∀ place name, Place.accessor? place = some name →
      KeepsValues (returnedEntries (requestFile d s classes r c) name)) ↔
    SendsOnce s c.endpoint := by
  constructor
  · intro hall place
    cases hplace : place.accessor? with
    | none =>
      cases place with
      | path => exact List.nodup_nil
      | body | query | header => cases hplace
    | some name =>
      exact (keepsValues_requestFile d classes r h hplace).mp (hall place name hplace)
  · intro hall place name hplace
    exact (keepsValues_requestFile d classes r h hplace).mpr (hall place)

end Client

namespace Postman
open Client (Place isSent parametersIn)

variable {i : Item} {e : Api.Endpoint} {s : Settings} {place : Place}

/-- The names in a list of entries, as often as they are listed. -/
def names (entries : List Entry) : List String :=
  entries.filterMap (·.key)

theorem names_parametersOf {parameter : String → Entry → Api.Parameter}
    (h : ∀ key entry, (parameter key entry).name = key) (entries : List Entry) :
    (parametersOf entries parameter).map (·.name) = names entries := by
  rw [parametersOf, List.map_filterMap, names]
  refine List.filterMap_congr fun entry _ => ?_
  cases entry.key with
  | none => rfl
  | some key => exact congrArg some (h key entry)

/-- The names that a body lists, if it is a form. -/
def Body.listed (b : Body) : List String :=
  if b.mode = some "urlencoded" then names b.urlencoded
  else if b.mode = some "formdata" then names b.formdata
  else []

/-- The names that a request lists for a place besides the path. -/
def Item.listed (i : Item) : Place → List String
  | .path => []
  | .body => (i.request.body.map Body.listed).getD []
  | .query => names (i.request.url.getD .empty).queryEntries
  | .header => names i.request.headers

theorem nodup_payload {source : String} {v : Json} (h : Json.parse? source = some v) :
    ((Api.Payload.ofJson v).parameters.map (·.name)).Nodup := by
  cases v with
  | object members =>
    have hkeys : ∀ ms, (Api.Payload.ofMembers ms).map (·.1) = Table.keys ms := by
      intro ms
      induction ms with
      | nil => rfl
      | cons m ms ih => rw [Api.Payload.ofMembers, List.map_cons, ih, Table.keys_cons]
    have hnames : ((Api.Payload.ofJson (.object members)).parameters.map (·.name)) =
        Table.keys members := by
      rw [Api.Payload.ofJson, Api.Payload.parameters, List.map_map, ← hkeys]
      rfl
    rw [hnames]
    exact Json.parse?_nodup h
  | null | bool _ | number _ | string _ | array _ => exact List.nodup_singleton _

theorem nodup_bodyNames (b : Body) (keeps : String → Bool) :
    ((b.parameters.map (·.name)).filter keeps).Nodup ↔ (b.listed.filter keeps).Nodup := by
  unfold Body.parameters Body.listed
  split
  · rw [names_parametersOf fun _ _ => rfl]
  · split
    · rw [names_parametersOf fun _ _ => rfl]
    · refine iff_of_true (List.Nodup.filter _ ?_) List.nodup_nil
      split
      · rename_i v hv
        obtain ⟨source, -, hparse⟩ := Option.bind_eq_some_iff.mp hv
        exact nodup_payload hparse
      · exact List.nodup_nil

/-- The names that are sent in a place are distinct exactly if those that are listed for it are. -/
theorem Item.Gives.nodup_iff (h : i.Gives e) (place : Place) (keeps : String → Bool) :
    (((parametersIn e place).map (·.name)).filter keeps).Nodup ↔
      ((i.listed place).filter keeps).Nodup := by
  obtain ⟨method, heq⟩ := Item.endpoint_eq_ok h
  have hbody : e.bodyParameters = (i.request.body.map Body.parameters).getD [] :=
    congrArg (·.bodyParameters) heq
  have hquery : e.queryParameters =
      parametersOf (i.request.url.getD .empty).queryEntries queryParameter :=
    congrArg (·.queryParameters) heq
  have hheader : e.headerParameters = parametersOf i.request.headers headerParameter :=
    congrArg (·.headerParameters) heq
  cases place with
  | path => exact Iff.rfl
  | body =>
    rw [parametersIn, hbody, listed]
    cases i.request.body with
    | none => exact Iff.rfl
    | some b => exact nodup_bodyNames b keeps
  | query => rw [parametersIn, hquery, listed, names_parametersOf fun _ _ => rfl]
  | header => rw [parametersIn, hheader, listed, names_parametersOf fun _ _ => rfl]

end Postman

namespace Client
open Postman (Collection)

variable {d : Api.Description} {s : Settings} {sdk : Sdk} {c : Collection}

/-- The arrays of all request classes made from a collection keep the values of their members,
exactly if the names that each request lists for a place, as far as they are sent, are distinct. -/
theorem Sdk.generate_keepsValues (hd : c.describe = .ok d) (h : generate d s = .ok sdk) :
    (∀ f ∈ sdk.requests, ∀ place name, Place.accessor? place = some name →
      KeepsValues (returnedEntries f name)) ↔
    ∀ i ∈ c.requests, ∀ place, ((i.listed place).filter (isSent s place)).Nodup := by
  have hgives := Collection.describe_gives hd
  rw [forall_requests h fun r hr c hc => sendsOnce_iff d _ r
    (Call.arranged (Plan.members_of_mem_calls hr hc))]
  constructor
  · intro hall i hi place
    obtain ⟨e, he, hgiven⟩ := exists_of_mem_left hgives hi
    exact (hgiven.nodup_iff place _).mp (hall e he place)
  · intro hall e he place
    obtain ⟨i, hi, hgiven⟩ := exists_of_mem_right hgives he
    exact (hgiven.nodup_iff place _).mpr (hall i hi place)

/-- A collection with one request, whose query lists these names. -/
def search (names : List String) : Collection where
  info := some ⟨some "Shop", none⟩
  items := some [.object [("name", .string "Search"), ("request", .object [("url", .object
    [("query", .array (names.map fun name => .object [("key", .string name)]))])])]]
  vars := []

theorem Sdk.generate_search_keepsValues : ∃ d sdk, (search ["tag", "page"]).describe = .ok d ∧
    generate d (.new "Acme" "App") = .ok sdk ∧ ∃ f ∈ sdk.requests,
      (returnedEntries f "defaultQuery").filterMap pairOfEntry? =
        [("tag", "tag"), ("page", "page")] ∧ KeepsValues (returnedEntries f "defaultQuery") := by
  have hdescribe : (search ["tag", "page"]).describe.toOption.map (fun d =>
      (generate d (.new "Acme" "App")).toOption.map fun sdk => sdk.requests.map fun f =>
        (returnedEntries f "defaultQuery").filterMap pairOfEntry?) =
      some (some [[("tag", "tag"), ("page", "page")]]) := by decide +kernel
  have hlisted : ∀ i ∈ (search ["tag", "page"]).requests,
      ∀ place ∈ [Place.path, .body, .query, .header],
        ((i.listed place).filter (isSent (.new "Acme" "App") place)).Nodup := by decide +kernel
  obtain ⟨d, hd, hgenerate⟩ := toOption_map_eq_some.mp hdescribe
  obtain ⟨sdk, hsdk, hfiles⟩ := toOption_map_eq_some.mp hgenerate
  obtain ⟨f, hf, hentries⟩ := List.mem_map.mp (hfiles ▸ List.mem_singleton_self _)
  have hkept := (generate_keepsValues hd hsdk).mpr fun i hi place =>
    hlisted i hi place (by cases place <;> decide)
  exact ⟨d, sdk, hd, hsdk, f, hf, hentries, hkept f hf .query "defaultQuery" rfl⟩

/-- A tag that is listed twice has two members, and the second one replaces the value of the
first. -/
theorem Sdk.generate_search_replaces : ∃ d sdk, (search ["tag", "tag"]).describe = .ok d ∧
    generate d (.new "Acme" "App") = .ok sdk ∧ ∃ f ∈ sdk.requests,
      memberNames f = ["tag", "tagDuplicate1"] ∧
      (returnedEntries f "defaultQuery").filterMap pairOfEntry? =
        [("tag", "tag"), ("tag", "tagDuplicate1")] ∧
      ¬ KeepsValues (returnedEntries f "defaultQuery") := by
  have hdescribe : (search ["tag", "tag"]).describe.toOption.map (fun d =>
      (generate d (.new "Acme" "App")).toOption.map fun sdk => sdk.requests.map fun f =>
        (memberNames f, (returnedEntries f "defaultQuery").filterMap pairOfEntry?)) =
      some (some [(["tag", "tagDuplicate1"], [("tag", "tag"), ("tag", "tagDuplicate1")])]) := by
    decide +kernel
  obtain ⟨d, hd, hgenerate⟩ := toOption_map_eq_some.mp hdescribe
  obtain ⟨sdk, hsdk, hfiles⟩ := toOption_map_eq_some.mp hgenerate
  obtain ⟨f, hf, hparts⟩ := List.mem_map.mp (hfiles ▸ List.mem_singleton_self _)
  obtain ⟨hmembers, hentries⟩ := Prod.mk.inj hparts
  refine ⟨d, sdk, hd, hsdk, f, hf, hmembers, hentries, ?_⟩
  rintro ⟨pairs, heq, hdistinct, -⟩
  rw [heq, pairs_wireEntry] at hentries
  rw [hentries] at hdistinct
  exact absurd hdistinct (by decide)

end Client
end SdkSmith
