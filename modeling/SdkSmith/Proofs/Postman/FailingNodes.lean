import SdkSmith.Proofs.Postman.FolderStack

/-!
The failures of collections. A walk fails at the first node, in the order of the document, that is
no folder and gives no endpoint. A node that cannot be read is named by its location, but a request
that can be read and has an unknown method is not.
-/
namespace SdkSmith

theorem Api.HttpMethod.mem_all (m : HttpMethod) : m ∈ all := by
  cases m <;> decide

/-- A word is refused as a method if it is the name of none, blanks and letter case aside. -/
theorem Api.HttpMethod.parse_eq_error {word : String} {f : Failure} : parse word = .error f ↔
    (∀ m : HttpMethod, m.name ≠ Text.upper (Text.trim word)) ∧
      f = .malformed (.unsupportedMethod (Text.upper (Text.trim word))) := by
  rw [parse]
  split
  · rename_i m hm
    have hname := List.find?_some hm
    rw [beq_iff_eq] at hname
    simp only [reduceCtorEq, false_iff, not_and]
    exact fun hnone => absurd hname (hnone m)
  · rename_i hnone
    rw [List.find?_eq_none] at hnone
    simp only [Except.error.injEq, eq_comm (b := f), iff_and_self]
    exact fun _ m hname => hnone m m.mem_all (beq_iff_eq.mpr hname)

namespace Postman
open Document (Datum)

variable {location : String} {node : Json} {nodes : List Json} {p : List Nat} {v : Visit}
  {f : Failure} {i : Item}

/-- Whether a node is a folder or gives an endpoint. -/
inductive Converts : Json → Prop
  | folder {node : Json} {folder : Folder} (hitem : (node.get? "item").isSome)
      (h : Read.folder (Datum.ofJson node) = .ok folder) : Converts node
  | request {node : Json} {i : Item} {e : Api.Endpoint} (hitem : node.get? "item" = none)
      (hi : Read.item (Datum.ofJson node) = .ok i) (he : i.endpoint = .ok e) : Converts node

/-- Whether a node is a request that can be read and has a method of an unknown name. -/
def HasUnknownMethod (node : Json) : Prop :=
  node.get? "item" = none ∧ ∃ i, Read.item (Datum.ofJson node) = .ok i ∧
    ∀ m : Api.HttpMethod, m.name ≠ Text.upper (Text.trim i.request.method)

theorem readNode_eq_error {α : Type} {r : Document.Reader α} :
    readNode r location node = .error f ↔
      ∃ m, r (Datum.ofJson node) = .error m ∧
        f = .malformed (.node location (nodeName? node) m) := by
  rw [readNode]
  split <;> simp [*, eq_comm]

theorem Item.endpoint_eq_error :
    i.endpoint = .error f ↔ Api.HttpMethod.parse i.request.method = .error f := by
  rw [Item.endpoint]
  cases Api.HttpMethod.parse i.request.method <;> simp [bind, Except.bind, pure, Except.pure]

theorem requestEndpoint_eq_error {collection : Option String} :
    requestEndpoint collection location node = .error f ↔
      readNode Read.item location node = .error f ∨
        ∃ i, Read.item (Datum.ofJson node) = .ok i ∧ i.endpoint = .error f := by
  simp only [requestEndpoint, bind_eq_error, readNode_eq_ok, pure, Except.pure, reduceCtorEq,
    and_false, exists_false, or_false]

/-- The failure of a node, at its location unless only its method is at fault. -/
def FailsAt (location : String) (node : Json) (f : Failure) : Prop :=
  ∃ fault, f = .malformed fault ∧ (HasUnknownMethod node → fault.location = "method") ∧
    (¬ HasUnknownMethod node → fault.location = location)

theorem failsAt_of_readNode {α : Type} {r : Document.Reader α}
    (h : readNode r location node = .error f) (hnode : ¬ HasUnknownMethod node) :
    FailsAt location node f := by
  obtain ⟨m, -, rfl⟩ := readNode_eq_error.mp h
  exact ⟨_, rfl, fun hunknown => absurd hunknown hnode, fun _ => rfl⟩

theorem failsAt_of_requestEndpoint {collection : Option String} (hitem : node.get? "item" = none)
    (h : requestEndpoint collection location node = .error f) : FailsAt location node f := by
  rcases requestEndpoint_eq_error.mp h with hread | ⟨i, hi, he⟩
  · refine failsAt_of_readNode hread ?_
    rintro ⟨-, i, hi, -⟩
    obtain ⟨m, hm, -⟩ := readNode_eq_error.mp hread
    cases hi.symm.trans hm
  · obtain ⟨hunknown, rfl⟩ := Api.HttpMethod.parse_eq_error.mp (Item.endpoint_eq_error.mp he)
    exact ⟨_, rfl, fun _ => rfl, fun hnot => absurd ⟨hitem, i, hi, hunknown⟩ hnot⟩

/-! Visits -/

theorem Visit.isFolder_iff : v.isFolder ↔ (v.node.get? "item").isSome := Iff.rfl

theorem Converts.endpoint?_eq_ok (h : Converts v.node) : ∃ o, v.endpoint? = .ok o := by
  rw [Visit.endpoint?]
  cases h with
  | folder hitem h =>
    rw [if_pos (Visit.isFolder_iff.mpr hitem), readNode_eq_ok.mpr h]
    exact ⟨none, rfl⟩
  | @request i e hitem hi he =>
    have hrequest : ¬ v.isFolder := by simp [Visit.isFolder_iff, hitem]
    have hgiven : requestEndpoint v.collection v.location v.node =
        .ok { e with collection := v.collection } :=
      bind_eq_ok.mpr ⟨i, readNode_eq_ok.mpr hi, bind_eq_ok.mpr ⟨e, he, rfl⟩⟩
    rw [if_neg hrequest, hgiven]
    exact ⟨_, rfl⟩

theorem converts_of_endpoint? {o : Option Api.Endpoint} (h : v.endpoint? = .ok o) :
    Converts v.node := by
  unfold Visit.endpoint? at h
  split at h
  · rename_i hfolder
    obtain ⟨folder, hread, -⟩ := map_eq_ok.mp h
    exact .folder (Visit.isFolder_iff.mp hfolder) (readNode_eq_ok.mp hread)
  · rename_i hrequest
    obtain ⟨e, he, -⟩ := map_eq_ok.mp h
    obtain ⟨i, hi, hgives⟩ := requestEndpoint_eq_ok he
    exact .request (by simpa [Visit.isFolder_iff] using hrequest) (readNode_eq_ok.mp hi) hgives

theorem failsAt_of_endpoint? (h : v.endpoint? = .error f) : FailsAt v.location v.node f := by
  unfold Visit.endpoint? at h
  split at h
  · rename_i hfolder
    refine failsAt_of_readNode (map_eq_error.mp h) ?_
    rintro ⟨hitem, -⟩
    simp [Visit.isFolder_iff, hitem] at hfolder
  · rename_i hrequest
    exact failsAt_of_requestEndpoint (by simpa [Visit.isFolder_iff] using hrequest)
      (map_eq_error.mp h)

/-! Walks -/

theorem exists_walkNodes_eq_ok : (∃ es, walkNodes none "item" 0 nodes = .ok es) ↔
    ∀ p node, nodeAt? nodes p = some node → Converts node := by
  have hvisits := forall₂_visitNodes nodes
  have hok : (∃ es, walkNodes none "item" 0 nodes = .ok es) ↔
      ∃ os, (visitNodes none "item" 0 nodes).mapM Visit.endpoint? = .ok os := by
    simp only [walkNodes_eq, endpointsOf, map_eq_ok]
    exact ⟨fun ⟨_, os, hos, _⟩ => ⟨os, hos⟩, fun ⟨os, hos⟩ => ⟨_, os, hos, rfl⟩⟩
  rw [hok, exists_mapM_eq_ok]
  constructor
  · intro h p node hnode
    have hp : p ∈ pathsTo 0 nodes := mem_pathsTo_zero.mpr (by rw [hnode, Option.isSome_some])
    obtain ⟨v, hv, hvisit⟩ := exists_of_mem_left hvisits hp
    obtain rfl : v.node = node := Option.some.inj (hvisit.node.symm.trans hnode)
    obtain ⟨o, ho⟩ := h v hv
    exact converts_of_endpoint? ho
  · intro h v hv
    obtain ⟨p, -, hvisit⟩ := exists_of_mem_right hvisits hv
    exact (h p v.node hvisit.node).endpoint?_eq_ok

/-- A walk that fails does so at the first node, in the order of the document, that is no folder
and gives no endpoint. -/
theorem exists_path_of_walkNodes (h : walkNodes none "item" 0 nodes = .error f) :
    ∃ p node, nodeAt? nodes p = some node ∧ ¬ Converts node ∧
      (∀ q n, q < p → nodeAt? nodes q = some n → Converts n) ∧ FailsAt (locationOf p) node f := by
  rw [walkNodes_eq, endpointsOf, map_eq_error] at h
  obtain ⟨before, v, after, hsplit, hbefore, hv⟩ := mapM_eq_error h
  obtain ⟨ps, p, rest, hpaths, hps, hvisit⟩ :=
    exists_of_append_cons_right (hsplit ▸ forall₂_visitNodes nodes)
  have hsorted := pairwise_pathsTo (fun n (_ : n ∈ nodes) => pairwise_pathsFrom n) 0
  rw [hpaths, List.pairwise_append, List.pairwise_cons] at hsorted
  have hlocation : v.location = locationOf p := hvisit.location
  refine ⟨p, v.node, hvisit.node, ?_, ?_, hlocation ▸ failsAt_of_endpoint? hv⟩
  · intro hconverts
    obtain ⟨o, ho⟩ := hconverts.endpoint?_eq_ok
    cases ho.symm.trans hv
  · intro q n hq hn
    have hmem : q ∈ pathsTo 0 nodes := mem_pathsTo_zero.mpr (by rw [hn, Option.isSome_some])
    rw [hpaths, List.mem_append, List.mem_cons] at hmem
    rcases hmem with hmem | rfl | hmem
    · obtain ⟨u, hu, huvisit⟩ := exists_of_mem_left hps hmem
      obtain ⟨o, ho⟩ := hbefore u hu
      obtain rfl : u.node = n := Option.some.inj (huvisit.node.symm.trans hn)
      exact converts_of_endpoint? ho
    · exact absurd hq (List.lt_irrefl _)
    · exact absurd (hsorted.2.1.1 q hmem) (List.lt_asymm hq)

/-! Collections -/

theorem describe_eq_map {v : Json} {c : Collection} {name : String}
    (hc : Read.collection (Datum.ofJson v) = .ok c) (hname : c.info.bind (·.name) = some name)
    (hitems : c.items = some nodes) :
    ∃ g : List Api.Endpoint → Api.Description,
      describe v = (walkNodes none "item" 0 nodes).map g := by
  obtain ⟨info, hinfo, hname⟩ := Option.bind_eq_some_iff.mp hname
  refine ⟨fun es => { Api.Description.empty with
    name := some name
    description := info.description.bind id
    baseUrl := c.baseUrl
    endpoints := es }, ?_⟩
  rw [describe, hc]
  simp only [Collection.describe, hinfo, hname, hitems]
  cases walkNodes none "item" 0 nodes <;> rfl

/-- A collection with a name and with nodes is described exactly if each node is a folder or gives
an endpoint. Otherwise the failure is about the first node, in the order of the document, that is
and does neither. It has the location of this node, except that a request with a method of an
unknown name is reported at the location `method`. -/
theorem describe_findsFault {v : Json} {c : Collection} {name : String} {nodes : List Json}
    (hc : Read.collection (Datum.ofJson v) = .ok c) (hname : c.info.bind (·.name) = some name)
    (hitems : c.items = some nodes) :
    ((∃ a, describe v = .ok a) ↔ ∀ p node, nodeAt? nodes p = some node → Converts node) ∧
      ∀ f, describe v = .error f → ∃ p node fault,
        nodeAt? nodes p = some node ∧ ¬ Converts node ∧
        (∀ q n, q < p → nodeAt? nodes q = some n → Converts n) ∧
        f = .malformed fault ∧
        (HasUnknownMethod node → fault.location = "method") ∧
        (¬ HasUnknownMethod node → fault.location = locationOf p) := by
  obtain ⟨g, hg⟩ := describe_eq_map hc hname hitems
  rw [hg]
  refine ⟨?_, fun f hf => ?_⟩
  · rw [← exists_walkNodes_eq_ok]
    simp only [map_eq_ok]
    exact ⟨fun ⟨_, es, hes, _⟩ => ⟨es, hes⟩, fun ⟨es, hes⟩ => ⟨g es, es, hes, rfl⟩⟩
  · obtain ⟨p, node, hnode, hconverts, hfirst, fault, hfault⟩ :=
      exists_path_of_walkNodes (map_eq_error.mp hf)
    exact ⟨p, node, fault, hnode, hconverts, hfirst, hfault⟩

/-- The nodes of a shop: one cannot be read, and a later one has an unknown method. -/
def faultyNodes : List Json := [
  folderOf "Orders" [requestOf "List" "GET", .object [("name", .string "Get")]],
  requestOf "Ping" "FOO"]

theorem describe_faultyNodes_findsFault : ∃ p node fault,
    describe (collectionOf "Shop" faultyNodes) = .error (.malformed fault) ∧
      fault.location = "item[0].item[1]" ∧ nodeAt? faultyNodes p = some node ∧ ¬ Converts node ∧
      (∀ q n, q < p → nodeAt? faultyNodes q = some n → Converts n) ∧
      (¬ HasUnknownMethod node → fault.location = locationOf p) := by
  have hc : Read.collection (Datum.ofJson (collectionOf "Shop" faultyNodes)) =
      .ok ⟨some ⟨some "Shop", none⟩, some faultyNodes, []⟩ := rfl
  have hf : describe (collectionOf "Shop" faultyNodes) =
      .error (.malformed (.node "item[0].item[1]" (some "Get") (.missingField "request"))) := rfl
  obtain ⟨p, node, fault, hnode, hconverts, hfirst, hfault, -, hlocation⟩ :=
    (describe_findsFault hc rfl rfl).2 _ hf
  cases hfault
  exact ⟨p, node, _, hf, rfl, hnode, hconverts, hfirst, hlocation⟩

theorem head?_locationOf (h : p ≠ []) : (locationOf p).toList.head? = some 'i' := by
  obtain ⟨i, p, rfl⟩ := List.exists_cons_of_ne_nil h
  rw [locationOf, List.map_cons]
  cases p with
  | nil =>
    rw [List.map_nil, String.intercalate_singleton, String.toList_append]
    simp
  | cons j p =>
    rw [List.map_cons, String.intercalate_cons_cons]
    simp only [String.toList_append]
    simp

/-- The failure of a request of an unknown method has the location of no node. -/
theorem describe_unknownMethod_unlocated : ∃ c fault,
    let v := collectionOf "Shop" [folderOf "Orders" [requestOf "List" "FOO"]]
    Read.collection (Datum.ofJson v) = .ok c ∧ describe v = .error (.malformed fault) ∧
      ∀ p, fault.location ≠ locationOf p := by
  refine ⟨⟨some ⟨some "Shop", none⟩, some [folderOf "Orders" [requestOf "List" "FOO"]], []⟩,
    .unsupportedMethod "FOO", rfl, rfl, fun p hp => ?_⟩
  by_cases hnil : p = []
  · subst hnil
    exact absurd hp (by decide)
  · have hhead := head?_locationOf hnil
    rw [← hp] at hhead
    exact absurd hhead (by decide)

end Postman
end SdkSmith
