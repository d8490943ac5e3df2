import SdkSmith.Proofs.Postman.NodePaths

/-!
The endpoints of a collection in the order of its requests, each in the nearest folder that is a
collection. The same walk may keep the folders it is in on a stack, which it leaves as it was.
-/
namespace SdkSmith.Postman
open Document (Datum)

variable {collection : Option String} {location : String} {node : Json} {nodes : List Json}
  {p : List Nat} {ps : List (List Nat)} {v : Visit} {vs : List Visit} {w : Walker}
  {e : Api.Endpoint} {es : List Api.Endpoint}

/-! A walk with a stack -/

/-- A walk on its way: the collections that it is in, the innermost first, and the endpoints that
it has come by. -/
structure Walker where
  stack : List String
  endpoints : List Api.Endpoint

namespace Walker

/-- A walk that has not come by anything. -/
def start : Walker := ⟨[], []⟩

/-- Goes into a folder, which is put on the stack if it is a collection. -/
def enter (folder : String) (w : Walker) : Walker :=
  if isCollection folder then { w with stack := folder :: w.stack } else w

/-- Leaves a folder, which is taken off the stack if it is a collection. -/
def leave (folder : String) (w : Walker) : Walker :=
  if isCollection folder then { w with stack := w.stack.tail } else w

/-- Takes the endpoint of a request, in the innermost collection. -/
def take (location : String) (node : Json) (w : Walker) : Except Failure Walker := do
  let e ← requestEndpoint w.stack.head? location node
  return { w with endpoints := w.endpoints ++ [e] }

mutual

/-- Walks a node. -/
def walkNode (location : String) : Json → Walker → Except Failure Walker
  | .object members, w =>
    if Table.has "item" members then do
      let folder ← readNode Read.folder location (.object members)
      let w ← Walker.walkMembers location members (w.enter folder.name)
      return w.leave folder.name
    else w.take location (.object members)
  | node, w => w.take location node

/-- Walks the items among the members of a folder. -/
def walkMembers (location : String) : List (String × Json) → Walker → Except Failure Walker
  | [], w => .ok w
  | (k, .array items) :: ms, w =>
    if k = "item" then Walker.walkNodes (location ++ ".item") 0 items w
    else Walker.walkMembers location ms w
  | _ :: ms, w => Walker.walkMembers location ms w

/-- Walks nodes, the first of which has a number. -/
def walkNodes (location : String) : Nat → List Json → Walker → Except Failure Walker
  | _, [], w => .ok w
  | i, node :: nodes, w => do
    let w ← Walker.walkNode (location ++ "[" ++ toString i ++ "]") node w
    Walker.walkNodes location (i + 1) nodes w

end

/-- A walk that has come by more endpoints. -/
def gain (w : Walker) (es : List Api.Endpoint) : Walker :=
  { w with endpoints := w.endpoints ++ es }

theorem gain_nil (w : Walker) : w.gain [] = w := by
  rw [gain, List.append_nil]

theorem gain_gain (w : Walker) (es es' : List Api.Endpoint) :
    (w.gain es).gain es' = w.gain (es ++ es') := by
  rw [gain, gain, gain, List.append_assoc]

theorem take_eq (w : Walker) (location : String) (node : Json) : w.take location node =
    (requestEndpoint w.stack.head? location node).map fun e => w.gain [e] := by
  rw [take]
  cases requestEndpoint w.stack.head? location node <;> rfl

theorem head?_enter (folder : String) (w : Walker) : (w.enter folder).stack.head? =
    if isCollection folder then some folder else w.stack.head? := by
  rw [enter]
  split <;> rfl

/-- What is put on the stack is taken off again. -/
theorem leave_gain_enter (folder : String) (w : Walker) (es : List Api.Endpoint) :
    ((w.enter folder).gain es).leave folder = w.gain es := by
  rw [enter, leave]
  split <;> rfl

mutual

/-- The endpoints that a walk comes by are those in the node, in the innermost collection. -/
theorem walkNode_eq (location : String) : ∀ (node : Json) (w : Walker),
    Walker.walkNode location node w =
      (Postman.walkNode w.stack.head? location node).map w.gain
  | .object members, w => by
    rw [Walker.walkNode, Postman.walkNode]
    split
    · cases readNode Read.folder location (.object members) with
      | error f => rfl
      | ok folder =>
        have hbelow := walkMembers_eq location members (w.enter folder.name)
        rw [head?_enter] at hbelow
        change (do
          let w' ← Walker.walkMembers location members (w.enter folder.name)
          return w'.leave folder.name) = (Postman.walkMembers _ location members).map w.gain
        rw [hbelow]
        cases Postman.walkMembers _ location members with
        | error f => rfl
        | ok es => exact congrArg Except.ok (leave_gain_enter folder.name w es)
    · rw [take_eq]
      cases requestEndpoint w.stack.head? location (.object members) <;> rfl
  | .null, w | .bool _, w | .number _, w | .string _, w | .array _, w => by
    simp only [Walker.walkNode, Postman.walkNode, take_eq]
    cases requestEndpoint w.stack.head? location _ <;> rfl

theorem walkMembers_eq (location : String) : ∀ (members : List (String × Json)) (w : Walker),
    Walker.walkMembers location members w =
      (Postman.walkMembers w.stack.head? location members).map w.gain
  | [], w => congrArg Except.ok w.gain_nil.symm
  | (k, .array items) :: ms, w => by
    rw [Walker.walkMembers, Postman.walkMembers]
    split
    · exact walkNodes_eq (location ++ ".item") 0 items w
    · exact walkMembers_eq location ms w
  | (_, .null) :: ms, w | (_, .bool _) :: ms, w | (_, .number _) :: ms, w
  | (_, .string _) :: ms, w | (_, .object _) :: ms, w => by
    simp only [Walker.walkMembers, Postman.walkMembers]
    exact walkMembers_eq location ms w

theorem walkNodes_eq (location : String) : ∀ (i : Nat) (nodes : List Json) (w : Walker),
    Walker.walkNodes location i nodes w =
      (Postman.walkNodes w.stack.head? location i nodes).map w.gain
  | _, [], w => congrArg Except.ok w.gain_nil.symm
  | i, node :: nodes, w => by
    rw [Walker.walkNodes, Postman.walkNodes, walkNode_eq _ node w]
    cases Postman.walkNode w.stack.head? _ node with
    | error f => rfl
    | ok es =>
      change Walker.walkNodes location (i + 1) nodes (w.gain es) = _
      rw [walkNodes_eq location (i + 1) nodes (w.gain es)]
      change (Postman.walkNodes w.stack.head? location (i + 1) nodes).map (w.gain es).gain = _
      cases Postman.walkNodes w.stack.head? location (i + 1) nodes with
      | error f => rfl
      | ok es' => exact congrArg Except.ok (gain_gain w es es')

end

end Walker

/-! Requests in the order of the document -/

/-- Whether there is a request at a path. -/
def IsRequestAt (nodes : List Json) (p : List Nat) : Prop :=
  ∃ node, nodeAt? nodes p = some node ∧ node.get? "item" = none

/-- Whether an endpoint is what the request at a path gives, in the nearest folder around it that
is a collection. -/
structure IsGivenAt (nodes : List Json) (p : List Nat) (e : Api.Endpoint) : Prop where
  request : ∃ node i, nodeAt? nodes p = some node ∧ Read.item (Datum.ofJson node) = .ok i ∧
    i.Gives e
  collection : e.collection = collectionAt nodes p

/-- Whether there is a request at a path, to be computed. -/
def isRequestAt (nodes : List Json) (p : List Nat) : Bool :=
  (nodeAt? nodes p).any fun node => (node.get? "item").isNone

theorem isRequestAt_iff : isRequestAt nodes p ↔ IsRequestAt nodes p := by
  simp [isRequestAt, IsRequestAt, Option.any_eq_true]

theorem readNode_eq_ok {α : Type} {r : Document.Reader α} {a : α} :
    readNode r location node = .ok a ↔ r (Datum.ofJson node) = .ok a := by
  rw [readNode]
  split <;> simp [*]

theorem collection_of_requestEndpoint (h : requestEndpoint collection location node = .ok e) :
    e.collection = collection := by
  obtain ⟨i, -, h⟩ := bind_eq_ok.mp h
  obtain ⟨e', -, h⟩ := bind_eq_ok.mp h
  cases h
  rfl

theorem IsVisit.isGivenAt (hv : IsVisit [] none nodes p v)
    (h : requestEndpoint v.collection v.location v.node = .ok e) : IsGivenAt nodes p e := by
  obtain ⟨i, hi, hgives⟩ := requestEndpoint_eq_ok h
  refine ⟨⟨v.node, i, hv.node, readNode_eq_ok.mp hi, hgives⟩, ?_⟩
  rw [collection_of_requestEndpoint h, hv.collection, Option.or_none]

/-- The endpoints that visits give are those of the requests among their paths. -/
theorem isGivenAt_of_endpointsOf (hv : List.Forall₂ (IsVisit [] none nodes) ps vs)
    (h : endpointsOf vs = .ok es) :
    List.Forall₂ (IsGivenAt nodes) (ps.filter (isRequestAt nodes)) es := by
  obtain ⟨os, hos, rfl⟩ := map_eq_ok.mp h
  clear h
  induction hv generalizing os with
  | nil =>
    cases hos
    exact .nil
  | @cons p v ps vs hpv hrest ih =>
    obtain ⟨o, os, ho, htail, rfl⟩ := mapM_cons_eq_ok.mp hos
    have hkind : isRequestAt nodes p = !v.isFolder := by
      rw [isRequestAt, hpv.node, Option.any_some, Visit.isFolder, Option.not_isSome]
    have hgiven := ih os htail
    unfold Visit.endpoint? at ho
    split at ho
    · rename_i hfolder
      obtain ⟨folder, -, rfl⟩ := map_eq_ok.mp ho
      rwa [List.filter_cons_of_neg (by simp [hkind, hfolder])]
    · rename_i hrequest
      obtain ⟨e, he, rfl⟩ := map_eq_ok.mp ho
      rw [List.filter_cons_of_pos (by simp [hkind, hrequest])]
      exact .cons (hpv.isGivenAt he) hgiven

theorem exists_paths_of_walkNodes (h : walkNodes none "item" 0 nodes = .ok es) :
    ∃ ps : List (List Nat), ps.Pairwise (· < ·) ∧ (∀ p, p ∈ ps ↔ IsRequestAt nodes p) ∧
      List.Forall₂ (IsGivenAt nodes) ps es := by
  refine ⟨(pathsTo 0 nodes).filter (isRequestAt nodes), ?_, fun p => ?_, ?_⟩
  · exact (pairwise_pathsTo (fun n _ => pairwise_pathsFrom n) 0).filter _
  · rw [List.mem_filter, isRequestAt_iff, mem_pathsTo_zero, and_iff_right_iff_imp]
    rintro ⟨node, hnode, -⟩
    rw [hnode, Option.isSome_some]
  · exact isGivenAt_of_endpointsOf (forall₂_visitNodes nodes) (walkNodes_eq none "item" 0 nodes ▸ h)

/-- What a value gives as a collection, if it gives anything. -/
theorem describe_eq_ok {v : Json} {a : Api.Description} (h : describe v = .ok a) :
    ∃ c nodes, Read.collection (Datum.ofJson v) = .ok c ∧ c.items = some nodes ∧
      walkNodes none "item" 0 nodes = .ok a.endpoints := by
  unfold describe at h
  split at h
  · rename_i c hc
    unfold Collection.describe at h
    split at h
    · cases h
    · split at h
      · cases h
      · cases h
      · rename_i name nodes _ hitems
        obtain ⟨es, hes, h⟩ := bind_eq_ok.mp h
        cases h
        exact ⟨c, nodes, hc, hitems, hes⟩
  · cases h

/-- A collection that is described has one endpoint for each of its requests, in the order of the
document and in the nearest folder around it whose name has no braces. A walk that keeps a stack
comes by the same endpoints, and in whatever folders it is when it comes to a node, it gains the
endpoints in the node and has the same stack after it. -/
theorem describe_inOrder {v : Json} {a : Api.Description} (h : describe v = .ok a) :
    ∃ c nodes, Read.collection (Datum.ofJson v) = .ok c ∧ c.items = some nodes ∧
      (∃ ps : List (List Nat), ps.Pairwise (· < ·) ∧ (∀ p, p ∈ ps ↔ IsRequestAt nodes p) ∧
        List.Forall₂ (IsGivenAt nodes) ps a.endpoints) ∧
      Walker.walkNodes "item" 0 nodes .start = .ok ⟨[], a.endpoints⟩ ∧
      ∀ (w : Walker) (location : String) (node : Json), Walker.walkNode location node w =
        (walkNode w.stack.head? location node).map fun es => ⟨w.stack, w.endpoints ++ es⟩ := by
  obtain ⟨c, nodes, hc, hitems, hes⟩ := describe_eq_ok h
  refine ⟨c, nodes, hc, hitems, exists_paths_of_walkNodes hes, ?_, fun w location node => ?_⟩
  · rw [Walker.walkNodes_eq]
    exact congrArg (Except.map _) hes
  · exact Walker.walkNode_eq location node w

/-- A folder as a value. -/
def folderOf (name : String) (nodes : List Json) : Json :=
  .object [("name", .string name), ("item", .array nodes)]

/-- A request as a value. -/
def requestOf (name method : String) : Json :=
  .object [("name", .string name),
    ("request", .object [("method", .string method), ("url", .string "https://shop.test/")])]

/-- A collection as a value. -/
def collectionOf (name : String) (nodes : List Json) : Json :=
  .object [("info", .object [("name", .string name)]), ("item", .array nodes)]

/-- A shop with orders, some of them in the folder of a variable. -/
def shop : Json := collectionOf "Shop" [
  folderOf "Orders" [
    requestOf "List" "GET",
    folderOf "\x7border\x7d" [requestOf "Get" "GET", folderOf "Notes" [requestOf "Add" "POST"]],
    requestOf "Search" "GET"],
  requestOf "Ping" "GET"]

theorem describe_shop_inOrder : ∃ a nodes, describe shop = .ok a ∧
    a.endpoints.map (fun e => (e.name, e.collection)) =
      [("List", some "Orders"), ("Get", some "Orders"), ("Add", some "Notes"),
        ("Search", some "Orders"), ("Ping", none)] ∧
    (∃ ps : List (List Nat), ps.Pairwise (· < ·) ∧ (∀ p, p ∈ ps ↔ IsRequestAt nodes p) ∧
      List.Forall₂ (IsGivenAt nodes) ps a.endpoints) ∧
    Walker.walkNodes "item" 0 nodes .start = .ok ⟨[], a.endpoints⟩ := by
  have hrun : (describe shop).toOption.map
      (fun a => a.endpoints.map fun e => (e.name, e.collection)) =
      some [("List", some "Orders"), ("Get", some "Orders"), ("Add", some "Notes"),
        ("Search", some "Orders"), ("Ping", none)] := by decide +kernel
  obtain ⟨a, ha, hnames⟩ := toOption_map_eq_some.mp hrun
  obtain ⟨c, nodes, -, -, hpaths, hstack, -⟩ := describe_inOrder ha
  exact ⟨a, nodes, ha, hnames, hpaths, hstack⟩

end SdkSmith.Postman
