import Mathlib.Data.List.Forall2
import Mathlib.Data.List.ReduceOption
import SdkSmith.Postman.Outline
import SdkSmith.Proofs.Document.Reading

/-!
The visits to the nodes of a collection. Walking the nodes comes to the same as making the visits
one after another, each to what its node gives; the first visit that fails ends the walk.
-/
namespace SdkSmith

theorem exists_of_mem_left {α β : Type} {R : α → β → Prop} {l : List α} {l' : List β} {a : α}
    (h : List.Forall₂ R l l') (ha : a ∈ l) : ∃ b ∈ l', R a b := by
  induction h with
  | nil => cases ha
  | cons hab hrest ih =>
    rcases List.mem_cons.mp ha with rfl | ha
    · exact ⟨_, List.mem_cons_self, hab⟩
    · obtain ⟨b, hb, hrel⟩ := ih ha
      exact ⟨b, List.mem_cons_of_mem _ hb, hrel⟩

theorem exists_of_mem_right {α β : Type} {R : α → β → Prop} {l : List α} {l' : List β} {b : β}
    (h : List.Forall₂ R l l') (hb : b ∈ l') : ∃ a ∈ l, R a b :=
  exists_of_mem_left h.flip hb

theorem exists_of_append_cons_right {α β : Type} {R : α → β → Prop} {l : List α} {b : β}
    {before after : List β} (h : List.Forall₂ R l (before ++ b :: after)) :
    ∃ as a rest, l = as ++ a :: rest ∧ List.Forall₂ R as before ∧ R a b := by
  induction before generalizing l with
  | nil =>
    cases h with
    | cons hab hrest => exact ⟨[], _, _, rfl, .nil, hab⟩
  | cons c before ih =>
    cases h with
    | cons hac hrest =>
      obtain ⟨as, a, rest, rfl, has, hab⟩ := ih hrest
      exact ⟨_ :: as, a, rest, rfl, .cons hac has, hab⟩

namespace Document

open Datum (ofJson ofMembers)

variable {name key : String} {names : List String} {members : List (String × Json)}

/-- The document of a member that a record knows. -/
theorem Fields.lookup_named (h : key ∈ names) (i : Nat) (members : List (String × Json)) :
    ((Fields.named names i (ofMembers members)).lookup key).map (·.2) =
      (Table.find? key members).map ofJson := by
  induction members generalizing i with
  | nil => rfl
  | cons p members ih =>
    obtain ⟨k, v⟩ := p
    have hrest := ih (i + 1)
    have hcons : Fields.named names i (ofMembers ((k, v) :: members)) =
        if names.contains k then (k, i, ofJson v) :: Fields.named names (i + 1) (ofMembers members)
        else Fields.named names (i + 1) (ofMembers members) := rfl
    rw [hcons, Table.find?]
    by_cases hk : k = key
    · subst hk
      simp [h]
    · have hne : (key == k) = false := beq_false_of_ne (Ne.symm hk)
      rw [if_neg hk]
      split
      · rwa [List.lookup_cons, hne]
      · exact hrest

theorem Reader.text_ofJson {v : Json} {t : String} (h : Reader.text (ofJson v) = .ok t) :
    v.text? = some t := by
  cases v with
  | string s =>
    cases h
    rfl
  | null | bool _ | number _ | array _ | object _ => cases h

/-- A text field of a record with a default: the member of that name, or else the default. -/
theorem Fields.withDefault_text {f : Fields} {i : Nat} {other t : String}
    (hf : f.given = Fields.named names i (ofMembers members)) (hname : name ∈ names)
    (h : f.withDefault name other Reader.text = (Except.ok t : Placed String)) :
    t = ((Table.find? name members).bind Json.text?).getD other := by
  have hlookup := Fields.lookup_named hname i members
  unfold withDefault find? at h
  rw [hf] at h
  split at h
  · rename_i place d hfound
    rw [hfound] at hlookup
    obtain ⟨v, hv, hd⟩ := Option.map_eq_some_iff.mp hlookup.symm
    unfold readAt at h
    split at h
    · rename_i t' ht
      cases h
      have htext : v.text? = some t := Reader.text_ofJson (hd ▸ ht)
      rw [hv, Option.bind_some, htext, Option.getD_some]
    · cases h
  · rename_i hnone
    cases h
    rw [hnone] at hlookup
    have hmissing : Table.find? name members = none := by simpa using hlookup.symm
    rw [hmissing]
    rfl

end Document

namespace Postman

variable {collection : Option String} {location : String} {node : Json} {folder : Folder}
  {vs ws : List Visit} {e : Api.Endpoint} {es : List Api.Endpoint} {members : List (String × Json)}

/-- A folder that is read has the name that its node gives. -/
theorem name_of_folder (h : readNode Read.folder location (.object members) = .ok folder) :
    folder.name = (nodeName? (.object members)).getD "" := by
  unfold readNode at h
  split at h
  · rename_i folder' hread
    cases h
    have hbuild := Document.Placed.of_result_guarded _ hread
    obtain ⟨_, items, hmk, -, rfl⟩ := Document.Placed.seq_eq_ok.mp hbuild
    obtain ⟨name, hname, rfl⟩ := Document.Placed.map_eq_ok.mp hmk
    exact Document.Fields.withDefault_text rfl (by decide) hname
  · cases h

/-- The endpoints that visits give. -/
def endpointsOf (vs : List Visit) : Except Failure (List Api.Endpoint) :=
  (vs.mapM Visit.endpoint?).map List.reduceOption

theorem endpointsOf_append (vs ws : List Visit) :
    endpointsOf (vs ++ ws) = do return (← endpointsOf vs) ++ (← endpointsOf ws) := by
  unfold endpointsOf
  rw [List.mapM_append]
  cases vs.mapM Visit.endpoint? with
  | error f => rfl
  | ok os =>
    cases ws.mapM Visit.endpoint? with
    | error f => rfl
    | ok os' => exact congrArg Except.ok (List.reduceOption_append os os')

theorem endpointsOf_singleton (v : Visit) :
    endpointsOf [v] = v.endpoint?.map Option.toList := by
  unfold endpointsOf
  rw [List.mapM_cons, List.mapM_nil]
  cases v.endpoint? with
  | error f => rfl
  | ok o => cases o <;> rfl

/-- A request gives its endpoint. -/
theorem endpointsOf_request (hitem : (node.get? "item").isSome = false) :
    endpointsOf [⟨collection, location, node⟩] =
      (requestEndpoint collection location node).map ([·]) := by
  rw [endpointsOf_singleton, Visit.endpoint?, Visit.isFolder, if_neg (Bool.eq_false_iff.mp hitem)]
  cases requestEndpoint collection location node <;> rfl

/-- A folder gives what is in it, if it can be read. -/
theorem endpointsOf_folder (hitem : (node.get? "item").isSome = true) (vs : List Visit) :
    endpointsOf (⟨collection, location, node⟩ :: vs) =
      (do discard (readNode Read.folder location node); endpointsOf vs) := by
  rw [← List.singleton_append, endpointsOf_append, endpointsOf_singleton, Visit.endpoint?,
    Visit.isFolder, if_pos hitem]
  cases readNode Read.folder location node with
  | error f => rfl
  | ok folder => cases endpointsOf vs <;> rfl

/-- There are no visits to the items of an object that has none. -/
theorem visitMembers_eq_nil (h : Table.find? "item" members = none) :
    visitMembers collection location members = [] := by
  induction members with
  | nil => rfl
  | cons p members ih =>
    obtain ⟨k, v⟩ := p
    rw [Table.find?] at h
    split at h
    · cases h
    · rename_i hk
      cases v with
      | array items =>
        rw [visitMembers, if_neg hk]
        exact ih h
      | null | bool _ | number _ | string _ | object _ => exact ih h

mutual

/-- Walking a node comes to the same as the visits to it and to what is in it. -/
theorem walkNode_eq (collection : Option String) (location : String) :
    ∀ node : Json, walkNode collection location node =
      endpointsOf (visitNode collection location node)
  | .object members => by
    rw [walkNode, visitNode]
    split
    · rename_i hitem
      have hfolder : (Json.get? "item" (.object members)).isSome = true := hitem
      rw [endpointsOf_folder hfolder]
      cases hread : readNode Read.folder location (.object members) with
      | error f => rfl
      | ok folder =>
        have hname := name_of_folder hread
        have hinner : (if isCollection folder.name then some folder.name else collection) =
            innerCollection collection (.object members) := by
          rw [hname]
          rfl
        have hwalk := walkMembers_eq (innerCollection collection (.object members)) location members
        rw [← hinner] at hwalk ⊢
        exact hwalk
    · rename_i hitem
      have hmissing : Table.find? "item" members = none := Option.not_isSome_iff_eq_none.mp hitem
      have hrequest : (Json.get? "item" (.object members)).isSome = false :=
        Bool.eq_false_iff.mpr hitem
      rw [visitMembers_eq_nil hmissing]
      exact (endpointsOf_request hrequest).symm
  | .null | .bool _ | .number _ | .string _ | .array _ => by
    simp only [walkNode, visitNode]
    exact (endpointsOf_request rfl).symm

/-- Walking the items of a folder comes to the same as the visits to them. -/
theorem walkMembers_eq (collection : Option String) (location : String) :
    ∀ members : List (String × Json), walkMembers collection location members =
      endpointsOf (visitMembers collection location members)
  | [] => rfl
  | (k, .array items) :: ms => by
    rw [walkMembers, visitMembers]
    split
    · exact walkNodes_eq collection _ 0 items
    · exact walkMembers_eq collection location ms
  | (_, .null) :: ms | (_, .bool _) :: ms | (_, .number _) :: ms | (_, .string _) :: ms
  | (_, .object _) :: ms => by
    simp only [walkMembers, visitMembers]
    exact walkMembers_eq collection location ms

/-- Walking nodes comes to the same as the visits to them. -/
theorem walkNodes_eq (collection : Option String) (location : String) :
    ∀ (i : Nat) (nodes : List Json), walkNodes collection location i nodes =
      endpointsOf (visitNodes collection location i nodes)
  | _, [] => rfl
  | i, node :: nodes => by
    rw [walkNodes, visitNodes, endpointsOf_append, walkNode_eq collection _ node,
      walkNodes_eq collection location (i + 1) nodes]

end

/-! Requests -/

/-- Whether a request gives an endpoint, which may then be put in a collection. -/
def Item.Gives (i : Item) (e : Api.Endpoint) : Prop :=
  i.endpoint = .ok { e with collection := none }

theorem Item.endpoint_eq_ok {i : Item} (h : i.endpoint = .ok e) :
    ∃ method, e = Api.Endpoint.declarePlaceholders
      { Api.Endpoint.plain i.name method (i.request.url.getD .empty).pathText with
        description := Text.unlessBlank ((i.request.description.or i.description).bind id)
        pathParameters := parametersOf (i.request.url.getD .empty).vars pathParameter
        queryParameters := parametersOf (i.request.url.getD .empty).queryEntries queryParameter
        headerParameters := parametersOf i.request.headers headerParameter
        bodyParameters := (i.request.body.map Body.parameters).getD [] } := by
  obtain ⟨method, -, he⟩ := bind_eq_ok.mp h
  cases he
  exact ⟨method, rfl⟩

theorem requestEndpoint_eq_ok (h : requestEndpoint collection location node = .ok e) :
    ∃ i, readNode Read.item location node = .ok i ∧ i.Gives e := by
  obtain ⟨i, hi, h⟩ := bind_eq_ok.mp h
  obtain ⟨e', he', h⟩ := bind_eq_ok.mp h
  obtain ⟨method, heq⟩ := Item.endpoint_eq_ok he'
  have hnone : e'.collection = none := by
    rw [heq]
    rfl
  cases h
  refine ⟨i, hi, ?_⟩
  rw [Item.Gives, he', ← hnone]

/-- The request that a node is, unless it is a folder. -/
def Visit.request? (v : Visit) : Option Item :=
  if v.isFolder then none else (readNode Read.item v.location v.node).toOption

/-- The requests among visits, in order. -/
def requestsOf (vs : List Visit) : List Item :=
  vs.filterMap Visit.request?

/-- Visits give one endpoint for each request, in order. -/
theorem gives_requestsOf (h : endpointsOf vs = .ok es) :
    List.Forall₂ Item.Gives (requestsOf vs) es := by
  obtain ⟨os, hos, rfl⟩ := map_eq_ok.mp h
  clear h
  induction vs generalizing os with
  | nil =>
    cases hos
    exact .nil
  | cons v vs ih =>
    obtain ⟨o, os, ho, hrest, rfl⟩ := mapM_cons_eq_ok.mp hos
    have hgiven := ih os hrest
    unfold Visit.endpoint? at ho
    split at ho
    · -- a folder is no request and gives nothing itself
      rename_i hfolder
      obtain ⟨folder, -, rfl⟩ := map_eq_ok.mp ho
      have hnone : v.request? = none := if_pos hfolder
      rwa [requestsOf, List.filterMap_cons_none hnone]
    · rename_i hrequest
      obtain ⟨e, he, rfl⟩ := map_eq_ok.mp ho
      obtain ⟨i, hi, hgives⟩ := requestEndpoint_eq_ok he
      have hsome : v.request? = some i := by
        rw [Visit.request?, if_neg hrequest, hi]
        rfl
      rw [requestsOf, List.filterMap_cons_some hsome]
      exact .cons hgives hgiven

/-- The requests of a collection. -/
def Collection.requests (c : Collection) : List Item :=
  requestsOf (visitNodes none "item" 0 (c.items.getD []))

/-- A collection that is described has one endpoint for each of its requests. -/
theorem Collection.describe_gives {c : Collection} {a : Api.Description}
    (h : c.describe = .ok a) : List.Forall₂ Item.Gives c.requests a.endpoints := by
  unfold describe at h
  split at h
  · cases h
  · split at h
    · cases h
    · cases h
    · rename_i hitems
      obtain ⟨es, hes, h⟩ := bind_eq_ok.mp h
      cases h
      rw [requests, hitems, Option.getD_some]
      exact gives_requestsOf (walkNodes_eq none "item" 0 _ ▸ hes)

end Postman
end SdkSmith
