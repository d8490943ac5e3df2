import SdkSmith.Client.Sdk
import SdkSmith.Proofs.Client.Dto.Fields
import SdkSmith.Proofs.Client.Plan.CallNames
import SdkSmith.Proofs.Runs

/-!
The report of names that gave way. It tells of exactly the identifiers that are not what they were
to be, in the order in which they are given: the fields of data classes first, then for each
endpoint its method and its members.
-/
namespace SdkSmith.Client
open Php (File)
open Naming (Given GivenInTurn gaveWay)

/-- An identifier of a client: what it names, in which class, for which endpoint or schema, what it
was to be, what it is, and the identifiers before it in its class. -/
structure Identifier where
  kind : CollisionKind
  owner : String
  source : String
  wanted : String
  name : String
  earlier : List String
deriving DecidableEq, Repr

namespace Identifier

variable {kind : CollisionKind} {owner source : String} {pairs : List (String × String)}

/-- What is told of an identifier, if it is not what it was to be. -/
def collision? (i : Identifier) : Option Collision :=
  if i.name = i.wanted then none else some ⟨i.kind, i.owner, i.source, i.wanted, i.name⟩

/-- The identifiers of one class, of which each is given beside those before it. -/
def row (kind : CollisionKind) (owner source : String) (pairs : List (String × String)) :
    List Identifier :=
  (withEarlier pairs).map fun x => ⟨kind, owner, source, x.2.1, x.2.2, x.1.map (·.2)⟩

theorem collisions_row (kind : CollisionKind) (owner source : String)
    (pairs : List (String × String)) : (row kind owner source pairs).filterMap collision? =
      (gaveWay pairs).map fun x => ⟨kind, owner, source, x.1, x.2⟩ := by
  induction pairs using List.reverseRecOn with
  | nil => rfl
  | append_singleton pairs x ih =>
    rw [row, withEarlier_append_singleton, List.map_append, List.filterMap_append, ← row, ih,
      Naming.gaveWay_append_singleton]
    by_cases h : x.2 = x.1
    · simp [collision?, h]
    · simp [collision?, h]

theorem given_row (h : GivenInTurn pairs) (kind : CollisionKind) (owner source : String) :
    ∀ i ∈ row kind owner source pairs, Given i.earlier i.wanted i.name := by
  intro i hi
  obtain ⟨x, hx, rfl⟩ := List.mem_map.mp hi
  exact h x hx

end Identifier

/-- The identifiers of a data class: its fields. -/
def fieldIdentifiers (schemaName : String) (f : File) : List Identifier :=
  Identifier.row .property f.declaration.name schemaName ((fieldMap f).map fieldPair)

/-- The method of a call, beside those before it in its resource. -/
def PlacedCall.methodIdentifier (p : PlacedCall) : Identifier :=
  ⟨.method, p.className, sourceName p.call.endpoint, wantedMethod p.call.endpoint, p.call.method,
    p.earlier.map (·.method)⟩

/-- The members of a call. -/
def Call.memberIdentifiers (c : Call) : List Identifier :=
  Identifier.row .parameter c.requestClass (sourceName c.endpoint) (c.members.map Member.pair)

/-- The identifiers of an endpoint: its method and its members. -/
def PlacedCall.identifiers (p : PlacedCall) : List Identifier :=
  p.methodIdentifier :: p.call.memberIdentifiers

/-- Each schema with a class, and its class. -/
def schemaClasses (d : Api.Description) (s : Settings) : List (String × ClassRef × Api.Schema) :=
  (dtoClasses d s).filterMap fun (name, c) =>
    (Table.find? name d.components.schemas).map fun schema => (name, c, schema)

/-- Each schema with a class, and the file of its class. -/
def schemaFiles (d : Api.Description) (s : Settings) : List (String × File) :=
  (schemaClasses d s).map fun x => (x.1, (dtoFile d s (dtoClasses d s) x.1 x.2.1 x.2.2).1)

/-- Every identifier of a client, in the order in which they are given. -/
def identifiers (d : Api.Description) (s : Settings) : List Identifier :=
  ((schemaFiles d s).flatMap fun x => fieldIdentifiers x.1 x.2) ++
    ((Plan.ofDescription d s).placedCalls s d.endpoints).flatMap PlacedCall.identifiers

variable {d : Api.Description} {s : Settings} {sdk : Sdk}

/-! Endpoints -/

/-- What is told of an endpoint: of its method, and then of its members. -/
theorem collisions_plan (s : Settings) (r : Resource) (e : Api.Endpoint) : (r.plan s e).2 =
    (if (r.plan s e).1.method = wantedMethod e then []
      else [⟨.method, r.className, sourceName e, wantedMethod e, (r.plan s e).1.method⟩]) ++
    (members s e).renamed.map fun x =>
      ⟨.parameter, (r.plan s e).1.requestClass, sourceName e, x.1, x.2⟩ := by
  simp only [Resource.plan, wantedMethod]
  rfl

theorem endpoint_plan (s : Settings) (r : Resource) (e : Api.Endpoint) :
    (r.plan s e).1.endpoint = e := rfl

theorem members_plan (s : Settings) (r : Resource) (e : Api.Endpoint) :
    (r.plan s e).1.members = (members s e).members := rfl

theorem collisions_identifiers (s : Settings) (before : List Api.Endpoint) (e : Api.Endpoint) :
    ((resourceBefore s before e).plan s e).2 =
      (placeAfter s before e).identifiers.filterMap Identifier.collision? := by
  have hclass : (resourceBefore s before e).className = classOf s e :=
    Resource.className_ofEndpoints
  simp only [collisions_plan, hclass, (sound_members s e).renamed, PlacedCall.identifiers,
    PlacedCall.methodIdentifier, Call.memberIdentifiers, placeAfter, endpoint_plan, members_plan,
    List.filterMap_cons, Identifier.collisions_row, Identifier.collision?]
  split
  · rfl
  · rfl

theorem collisions_placedCalls (d : Api.Description) (s : Settings) :
    (Plan.ofDescription d s).collisions =
      (((Plan.ofDescription d s).placedCalls s d.endpoints).flatMap
        PlacedCall.identifiers).filterMap Identifier.collision? := by
  rw [Plan.ofDescription_collisions, Plan.ofDescription_placedCalls, List.flatMap_map,
    List.filterMap_flatMap]
  exact List.flatMap_congr fun x _ => collisions_identifiers s x.1 x.2

theorem given_identifiers (s : Settings) (before : List Api.Endpoint) (e : Api.Endpoint) :
    ∀ i ∈ (placeAfter s before e).identifiers, Given i.earlier i.wanted i.name := by
  intro i hi
  rcases List.mem_cons.mp hi with rfl | hi
  · simp only [PlacedCall.methodIdentifier, placeAfter, endpoint_plan]
    exact Resource.plan_given s (resourceBefore s before e) e
  · simp only [Call.memberIdentifiers, placeAfter, members_plan] at hi
    exact Identifier.given_row (sound_members s e).given _ _ _ i hi

/-! Data classes -/

theorem dtoFiles_eq (d : Api.Description) (s : Settings) : dtoFiles d s (dtoClasses d s) =
    (schemaClasses d s).map fun x =>
      ⟨(dtoFile d s (dtoClasses d s) x.1 x.2.1 x.2.2).1, d.components.isResponse x.1,
        (dtoFile d s (dtoClasses d s) x.1 x.2.1 x.2.2).2⟩ := by
  rw [dtoFiles, schemaClasses, List.map_filterMap]
  refine List.filterMap_congr fun x _ => ?_
  rw [Option.map_map]
  rfl

/-- The files of the classes that are responses, or of those that are not. -/
theorem dtoFiles_filter (d : Api.Description) (s : Settings) (p : Bool → Bool) :
    ((dtoFiles d s (dtoClasses d s)).filter fun f => p f.isResponse).map (·.file) =
      ((schemaFiles d s).filter fun x => p (d.components.isResponse x.1)).map (·.2) := by
  rw [dtoFiles_eq, schemaFiles, List.filter_map, List.filter_map, List.map_map, List.map_map]
  rfl

theorem collisions_dtoFiles (d : Api.Description) (s : Settings) :
    (dtoFiles d s (dtoClasses d s)).flatMap (·.collisions) =
      ((schemaFiles d s).flatMap fun x => fieldIdentifiers x.1 x.2).filterMap
        Identifier.collision? := by
  rw [dtoFiles_eq, schemaFiles, List.flatMap_map, List.flatMap_map, List.filterMap_flatMap]
  refine List.flatMap_congr fun x _ => ?_
  obtain ⟨hname, -, -, -, hcollisions⟩ := dtoFile_fields d s (dtoClasses d s) x.1 x.2.1 x.2.2
  rw [fieldIdentifiers, Identifier.collisions_row, hname]
  exact hcollisions

theorem given_fieldIdentifiers {x : String × File} (hx : x ∈ schemaFiles d s) :
    ∀ i ∈ fieldIdentifiers x.1 x.2, Given i.earlier i.wanted i.name := by
  obtain ⟨y, -, rfl⟩ := List.mem_map.mp hx
  obtain ⟨-, -, -, hgiven, -⟩ := dtoFile_fields d s (dtoClasses d s) y.1 y.2.1 y.2.2
  exact Identifier.given_row hgiven _ _ _

/-- A class is that of a schema in the table. -/
theorem find?_of_mem_dtoClasses {x : String × ClassRef} (hx : x ∈ dtoClasses d s) :
    ∃ schema, Table.find? x.1 d.components.schemas = some schema := by
  have hobject := Table.mem_keys_of_mem hx
  rw [keys_dtoClasses] at hobject
  obtain ⟨y, hy, hxy⟩ := List.mem_map.mp hobject
  have hkey := Table.mem_keys_of_mem (List.mem_filter.mp hy).1
  rw [hxy] at hkey
  exact Option.isSome_iff_exists.mp (Table.find?_isSome.mpr hkey)

theorem keys_schemaClasses (d : Api.Description) (s : Settings) :
    Table.keys (schemaClasses d s) =
      Table.keys (d.components.schemas.filter fun x => x.2.isObject) := by
  rw [← keys_dtoClasses, Table.keys, schemaClasses, List.map_filterMap, Table.keys,
    ← List.filterMap_eq_map]
  refine List.filterMap_congr fun x hx => ?_
  obtain ⟨schema, hschema⟩ := find?_of_mem_dtoClasses hx
  simp only [hschema, Option.map_some, Function.comp_apply]

theorem keys_schemaFiles (d : Api.Description) (s : Settings) :
    Table.keys (schemaFiles d s) =
      Table.keys (d.components.schemas.filter fun x => x.2.isObject) := by
  rw [← keys_schemaClasses d s, Table.keys, schemaFiles, List.map_map]
  rfl

theorem fields_schemaFiles {x : String × File} (hx : x ∈ schemaFiles d s) :
    ∃ schema, Table.find? x.1 d.components.schemas = some schema ∧
      Table.keys (fieldMap x.2) = Table.keys schema.properties ∧
      (memberNames x.2).Perm ((fieldMap x.2).map (·.2)) := by
  obtain ⟨y, hy, rfl⟩ := List.mem_map.mp hx
  obtain ⟨z, -, hz⟩ := List.mem_filterMap.mp hy
  obtain ⟨schema, hschema, rfl⟩ := Option.map_eq_some_iff.mp hz
  obtain ⟨-, hwires, hmembers, -, -⟩ := dtoFile_fields d s (dtoClasses d s) z.1 z.2 schema
  exact ⟨schema, hschema, hwires, hmembers⟩

/-! Clients -/

/-- A client's files are where its identifiers are: each object schema has a class, which has a
field for each property and no other members; each endpoint has a call, and no resource has others;
the resource classes have the methods of the calls, and the request classes their members. -/
structure Sdk.Holds (sdk : Sdk) (d : Api.Description) (s : Settings) : Prop where
  schemas : Table.keys (schemaFiles d s) =
    Table.keys (d.components.schemas.filter fun x => x.2.isObject)
  fields : ∀ x ∈ schemaFiles d s, ∃ schema, Table.find? x.1 d.components.schemas = some schema ∧
    Table.keys (fieldMap x.2) = Table.keys schema.properties ∧
    (memberNames x.2).Perm ((fieldMap x.2).map (·.2))
  dtos : sdk.dtos = ((schemaFiles d s).filter fun x => !d.components.isResponse x.1).map (·.2)
  responses :
    sdk.responses = ((schemaFiles d s).filter fun x => d.components.isResponse x.1).map (·.2)
  endpoints :
    ((Plan.ofDescription d s).placedCalls s d.endpoints).map (·.call.endpoint) = d.endpoints
  calls : ∀ r ∈ (Plan.ofDescription d s).resources, r.calls =
    (((Plan.ofDescription d s).placedCalls s d.endpoints).filter
      fun p => p.className = r.className).map (·.call)
  methods : sdk.resources.map (fun f => f.declaration.methods.map (·.name)) =
    (Plan.ofDescription d s).resources.map fun r => r.calls.map (·.method)
  members : sdk.requests.map memberNames =
    (Plan.ofDescription d s).resources.flatMap fun r => r.calls.map fun c => c.members.map (·.name)

namespace Sdk

theorem generate_eq_ok (h : generate d s = .ok sdk) : s.validate = .ok () ∧
    ∃ connector, connectorFile d s (Plan.ofDescription d s) = .ok connector ∧ sdk =
      { connector := connector
        resourceBase := Support.resourceFile s
        support := Support.otherFiles s
        dtos := ((dtoFiles d s (dtoClasses d s)).filter fun f => !f.isResponse).map (·.file)
        responses := ((dtoFiles d s (dtoClasses d s)).filter (·.isResponse)).map (·.file)
        requests := (Plan.ofDescription d s).resources.flatMap fun r =>
          r.calls.map (requestFile d s (dtoClasses d s) r)
        resources := (Plan.ofDescription d s).resources.map (resourceFile s)
        collisions := (dtoFiles d s (dtoClasses d s)).flatMap (·.collisions) ++
          (Plan.ofDescription d s).collisions } := by
  obtain ⟨u, hvalid, hrest⟩ := bind_eq_ok.mp h
  obtain ⟨connector, hconnector, hsdk⟩ := bind_eq_ok.mp hrest
  exact ⟨hvalid, connector, hconnector, (Except.ok.inj hsdk).symm⟩

theorem holds_generate (h : generate d s = .ok sdk) : sdk.Holds d s := by
  obtain ⟨-, connector, -, rfl⟩ := generate_eq_ok h
  constructor
  case schemas => exact keys_schemaFiles d s
  case fields => exact fun x hx => fields_schemaFiles hx
  case dtos => exact dtoFiles_filter d s (!·)
  case responses => exact dtoFiles_filter d s id
  case endpoints => exact Plan.endpoint_placedCalls d s
  case calls => exact fun r hr => Plan.calls_placedCalls hr
  case methods =>
    rw [List.map_map]
    exact List.map_congr_left fun r _ => methods_resourceFile s r
  case members =>
    rw [List.map_flatMap]
    refine List.flatMap_congr fun r _ => ?_
    rw [List.map_map]
    exact List.map_congr_left fun c _ => memberNames_requestFile d s (dtoClasses d s) r c

/-- What holds of each request class exactly if something holds of its endpoint, holds of all of
them exactly if that holds of all endpoints. -/
theorem forall_requests (h : generate d s = .ok sdk) {P : Php.File → Prop}
    {Q : Api.Endpoint → Prop} (hcall : ∀ r ∈ (Plan.ofDescription d s).resources, ∀ c ∈ r.calls,
      P (requestFile d s (dtoClasses d s) r c) ↔ Q c.endpoint) :
    (∀ f ∈ sdk.requests, P f) ↔ ∀ e ∈ d.endpoints, Q e := by
  obtain ⟨-, connector, -, rfl⟩ := generate_eq_ok h
  constructor
  · intro hall e he
    obtain ⟨r, hr, c, hc, rfl⟩ := Plan.exists_call (s := s) he
    apply (hcall r hr c hc).mp
    exact hall _ (List.mem_flatMap.mpr ⟨r, hr, List.mem_map_of_mem hc⟩)
  · intro hall f hf
    obtain ⟨r, hr, hf⟩ := List.mem_flatMap.mp hf
    obtain ⟨c, hc, rfl⟩ := List.mem_map.mp hf
    exact (hcall r hr c hc).mpr (hall c.endpoint (Plan.endpoint_of_mem_calls hr hc))

/-- The report tells of exactly the identifiers that are not what they were to be, in the order in
which they are given. Each identifier is what it was to be, or where one before it in its class has
that the first free duplicate of it. -/
theorem generate_tells (h : generate d s = .ok sdk) :
    sdk.collisions = (identifiers d s).filterMap Identifier.collision? ∧
    (∀ i ∈ identifiers d s, Given i.earlier i.wanted i.name) ∧ sdk.Holds d s := by
  refine ⟨?_, ?_, holds_generate h⟩
  · obtain ⟨-, connector, -, rfl⟩ := generate_eq_ok h
    rw [identifiers, List.filterMap_append, ← collisions_dtoFiles, ← collisions_placedCalls]
  · intro i hi
    rcases List.mem_append.mp hi with hi | hi
    · obtain ⟨x, hx, hi⟩ := List.mem_flatMap.mp hi
      exact given_fieldIdentifiers hx i hi
    · rw [Plan.ofDescription_placedCalls, List.flatMap_map] at hi
      obtain ⟨x, -, hi⟩ := List.mem_flatMap.mp hi
      exact given_identifiers s x.1 x.2 i hi

/-- Accounts with two keys of one variable, and two ways to get one. -/
def accounts : Api.Description :=
  { Api.Description.empty with
    components := ⟨[], [("account", .object "account"
      [("user_id", .scalar "user_id" .string), ("userId", .scalar "userId" .string)] [])], []⟩
    endpoints := [.plain "get account" .get "/accounts/:key",
      { Api.Endpoint.plain "Get-Account" .get "/accounts/:key" with
        queryParameters := [.plain "Key" .string] }] }

/-- A field, a method and a member give way. -/
theorem generate_accounts_tells : ∃ sdk, generate accounts (.new "Acme" "App") = .ok sdk ∧
    sdk.collisions = [⟨.property, "Account", "account", "userId", "userIdDuplicate1"⟩,
      ⟨.method, "Misc", "Get-Account", "getAccount", "getAccountDuplicate1"⟩,
      ⟨.parameter, "GetAccountDuplicate1", "Get-Account", "key", "keyDuplicate1"⟩] ∧
    sdk.collisions = (identifiers accounts (.new "Acme" "App")).filterMap Identifier.collision? ∧
    sdk.Holds accounts (.new "Acme" "App") := by
  have hrun : (generate accounts (.new "Acme" "App")).toOption.map (·.collisions) =
      some [⟨.property, "Account", "account", "userId", "userIdDuplicate1"⟩,
        ⟨.method, "Misc", "Get-Account", "getAccount", "getAccountDuplicate1"⟩,
        ⟨.parameter, "GetAccountDuplicate1", "Get-Account", "key", "keyDuplicate1"⟩] := by
    decide +kernel
  obtain ⟨sdk, hsdk, hcollisions⟩ := toOption_map_eq_some.mp hrun
  obtain ⟨htells, -, hholds⟩ := generate_tells hsdk
  exact ⟨sdk, hsdk, hcollisions, htells, hholds⟩

end Sdk
end SdkSmith.Client
