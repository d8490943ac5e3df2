import Mathlib.Data.List.Infix
import SdkSmith.Proofs.Postman.Visits

/-!
The paths to the nodes of a collection. A path has a number for each level, and the nodes of the
document stand in the order of their paths: a folder before what is in it, and that before the next
node. Walking a collection visits each node once, in this order.
-/
namespace SdkSmith.Postman

variable {collection : Option String} {location : String} {node n : Json} {nodes : List Json}
  {members : List (String × Json)} {i k : Nat} {p q pre : List Nat}

/-! Paths -/

/-- The nodes among the members of a folder. -/
def itemsOf : List (String × Json) → List Json
  | [] => []
  | (k, .array items) :: ms => if k = "item" then items else itemsOf ms
  | _ :: ms => itemsOf ms

/-- The nodes right below a node. -/
def nodesBelow : Json → List Json
  | .object members => itemsOf members
  | _ => []

/-- The node that a path leads to from a node. -/
def nodeFrom? : Json → List Nat → Option Json
  | node, [] => some node
  | node, i :: p => (nodesBelow node)[i]?.bind (nodeFrom? · p)

/-- The node at a path below nodes. -/
def nodeAt? (nodes : List Json) : List Nat → Option Json
  | [] => none
  | i :: p => nodes[i]?.bind (nodeFrom? · p)

/-- The location of the node at a path. -/
def locationOf (p : List Nat) : String :=
  ".".intercalate (p.map fun i => "item[" ++ toString i ++ "]")

/-- The nodes around the node at a path, the nearest first. -/
def nodesAround (nodes : List Json) (p : List Nat) : List Json :=
  p.inits.dropLast.reverse.filterMap (nodeAt? nodes)

/-- The name of the nearest folder around the node at a path whose name is without braces. -/
def collectionAt (nodes : List Json) (p : List Nat) : Option String :=
  ((nodesAround nodes p).map fun folder => (nodeName? folder).getD "").find?
    fun name => '\x7b' ∉ name.toList ∧ '\x7d' ∉ name.toList

theorem nodeFrom?_cons (node : Json) (i : Nat) (p : List Nat) :
    nodeFrom? node (i :: p) = nodeAt? (nodesBelow node) (i :: p) := rfl

theorem nodeAt?_cons (h : nodes[i]? = some node) (p : List Nat) :
    nodeAt? nodes (i :: p) = nodeFrom? node p := by
  rw [nodeAt?, h, Option.bind_some]

theorem dropLast_inits_cons (i : Nat) (p : List Nat) :
    (i :: p).inits.dropLast = [] :: p.inits.dropLast.map (i :: ·) := by
  have hne : p.inits.map (i :: ·) ≠ [] := by cases p <;> exact List.cons_ne_nil _ _
  rw [List.inits_cons, List.dropLast_cons_of_ne_nil hne, ← List.map_dropLast]

/-- The last of the nodes around another is the one in which its path begins. -/
theorem nodesAround_cons (h : nodes[i]? = some node) (hp : p ≠ []) :
    nodesAround nodes (i :: p) = nodesAround (nodesBelow node) p ++ [node] := by
  obtain ⟨j, r, rfl⟩ := List.exists_cons_of_ne_nil hp
  have hbelow (q : List Nat) : nodeAt? nodes (i :: j :: q) = nodeAt? (nodesBelow node) (j :: q) :=
    nodeAt?_cons h _
  have hnode : nodeAt? nodes [i] = some node := nodeAt?_cons h _
  have hnil (nodes : List Json) : nodeAt? nodes [] = none := rfl
  simp only [nodesAround, dropLast_inits_cons, List.map_cons, List.map_map, List.reverse_cons,
    ← List.map_reverse, List.filterMap_append, List.filterMap_map, Function.comp_def, hbelow,
    List.filterMap_cons, List.filterMap_nil, hnode, hnil, List.append_nil]

theorem isCollection_iff {name : String} :
    isCollection name ↔ '\x7b' ∉ name.toList ∧ '\x7d' ∉ name.toList := by
  simp [isCollection, forall_and, List.forall_mem_ne']

theorem collectionAt_cons (h : nodes[i]? = some node) (hp : p ≠ []) :
    (collectionAt nodes (i :: p)).or collection =
      (collectionAt (nodesBelow node) p).or (innerCollection collection node) := by
  rw [collectionAt, nodesAround_cons h hp, List.map_append, List.find?_append, Option.or_assoc,
    collectionAt, innerCollection]
  refine congrArg _ ?_
  simp only [isCollection_iff, List.map_singleton, List.find?_singleton, decide_eq_true_eq]
  split <;> rfl

/-- The location of the nodes below the node at a path. -/
def listLocation (p : List Nat) : String :=
  if p = [] then "item" else locationOf p ++ ".item"

theorem locationOf_append (p : List Nat) (i : Nat) :
    listLocation p ++ "[" ++ toString i ++ "]" = locationOf (p ++ [i]) := by
  rw [listLocation]
  split
  · rename_i hp
    subst hp
    rw [locationOf, List.nil_append, List.map_singleton, String.intercalate_singleton,
      ← String.toList_inj]
    simp
  · rename_i hp
    have hne : p.map (fun i => "item[" ++ toString i ++ "]") ≠ [] := by simpa using hp
    rw [locationOf, locationOf, List.map_append, List.map_singleton,
      String.intercalate_append_of_ne_nil hne (List.cons_ne_nil _ _),
      String.intercalate_singleton, ← String.toList_inj]
    simp

/-! Nodes and what is below them -/

theorem sizeOf_lt_of_mem_itemsOf (h : n ∈ itemsOf members) : sizeOf n < sizeOf members := by
  induction members with
  | nil => cases h
  | cons m members ih =>
    obtain ⟨k, v⟩ := m
    have hrest : n ∈ itemsOf members → sizeOf n < sizeOf ((k, v) :: members) := fun h => by
      have hlt := ih h
      simp
      omega
    cases v with
    | array items =>
      rw [itemsOf] at h
      split at h
      · have hlt := List.sizeOf_lt_of_mem h
        simp
        omega
      · exact hrest h
    | null | bool _ | number _ | string _ | object _ => exact hrest h

/-- What holds of a node if it holds of the nodes right below it holds of every node. -/
theorem node_induction {P : Json → Prop} (h : ∀ node, (∀ n ∈ nodesBelow node, P n) → P node)
    (node : Json) : P node := by
  induction hsize : sizeOf node using Nat.strongRecOn generalizing node with
  | ind size ih =>
    refine h node fun n hn => ih (sizeOf n) ?_ n rfl
    subst hsize
    cases node with
    | object members =>
      have hlt := sizeOf_lt_of_mem_itemsOf hn
      simp
      omega
    | null | bool _ | number _ | string _ | array _ => cases hn

theorem visitMembers_eq (collection : Option String) (location : String)
    (members : List (String × Json)) : visitMembers collection location members =
      visitNodes collection (location ++ ".item") 0 (itemsOf members) := by
  induction members with
  | nil => rfl
  | cons m members ih =>
    obtain ⟨k, v⟩ := m
    cases v with
    | array items =>
      rw [visitMembers, itemsOf]
      split
      · rfl
      · exact ih
    | null | bool _ | number _ | string _ | object _ => exact ih

/-- A node is visited before what is below it. -/
theorem visitNode_eq (collection : Option String) (location : String) (node : Json) :
    visitNode collection location node = ⟨collection, location, node⟩ ::
      visitNodes (innerCollection collection node) (location ++ ".item") 0 (nodesBelow node) := by
  cases node with
  | object members =>
    rw [visitNode, visitMembers_eq]
    rfl
  | null | bool _ | number _ | string _ | array _ => rfl

/-! The paths to all nodes -/

mutual

/-- The paths from a node to itself and to the nodes below it. -/
def pathsFrom : Json → List (List Nat)
  | .object members => [] :: pathsAmong members
  | _ => [[]]

/-- The paths to the nodes among the members of a folder and below them. -/
def pathsAmong : List (String × Json) → List (List Nat)
  | [] => []
  | (k, .array items) :: ms => if k = "item" then pathsTo 0 items else pathsAmong ms
  | _ :: ms => pathsAmong ms

/-- The paths to nodes, the first of which has a number, and below them. -/
def pathsTo : Nat → List Json → List (List Nat)
  | _, [] => []
  | i, node :: nodes => (pathsFrom node).map (i :: ·) ++ pathsTo (i + 1) nodes

end

theorem pathsAmong_eq (members : List (String × Json)) :
    pathsAmong members = pathsTo 0 (itemsOf members) := by
  induction members with
  | nil => rfl
  | cons m members ih =>
    obtain ⟨k, v⟩ := m
    cases v with
    | array items =>
      rw [pathsAmong, itemsOf]
      split
      · rfl
      · exact ih
    | null | bool _ | number _ | string _ | object _ => exact ih

theorem pathsFrom_eq (node : Json) : pathsFrom node = [] :: pathsTo 0 (nodesBelow node) := by
  cases node with
  | object members =>
    rw [pathsFrom, pathsAmong_eq]
    rfl
  | null | bool _ | number _ | string _ | array _ => rfl

theorem mem_pathsTo : p ∈ pathsTo k nodes ↔
    ∃ i node q, nodes[i]? = some node ∧ q ∈ pathsFrom node ∧ p = (k + i) :: q := by
  induction nodes generalizing k with
  | nil => simp [pathsTo]
  | cons node nodes ih =>
    rw [pathsTo, List.mem_append, List.mem_map, ih]
    constructor
    · rintro (⟨q, hq, rfl⟩ | ⟨i, n, q, hn, hq, rfl⟩)
      · exact ⟨0, node, q, rfl, hq, rfl⟩
      · exact ⟨i + 1, n, q, hn, hq, by rw [Nat.add_right_comm, Nat.add_assoc]⟩
    · rintro ⟨i, n, q, hn, hq, rfl⟩
      cases i with
      | zero =>
        obtain rfl : node = n := by simpa using hn
        exact Or.inl ⟨q, hq, rfl⟩
      | succ i => exact Or.inr ⟨i, n, q, hn, hq, by rw [Nat.add_right_comm, Nat.add_assoc]⟩

theorem cons_mem_pathsTo : i :: p ∈ pathsTo 0 nodes ↔
    ∃ node, nodes[i]? = some node ∧ p ∈ pathsFrom node := by
  rw [mem_pathsTo]
  constructor
  · rintro ⟨j, node, q, hnode, hq, heq⟩
    rw [Nat.zero_add, List.cons.injEq] at heq
    obtain ⟨rfl, rfl⟩ := heq
    exact ⟨node, hnode, hq⟩
  · rintro ⟨node, hnode, hp⟩
    exact ⟨i, node, p, hnode, hp, by rw [Nat.zero_add]⟩

/-- The paths from a node are those that lead somewhere. -/
theorem mem_pathsFrom : p ∈ pathsFrom node ↔ (nodeFrom? node p).isSome := by
  induction p generalizing node with
  | nil => simp [pathsFrom_eq, nodeFrom?]
  | cons i p ih =>
    rw [pathsFrom_eq, List.mem_cons, or_iff_right (List.cons_ne_nil i p), cons_mem_pathsTo,
      nodeFrom?]
    simp only [ih]
    cases (nodesBelow node)[i]? <;> simp

/-- The paths to nodes are those at which there is one. -/
theorem mem_pathsTo_zero : p ∈ pathsTo 0 nodes ↔ (nodeAt? nodes p).isSome := by
  cases p with
  | nil => simp [mem_pathsTo, nodeAt?]
  | cons i p =>
    rw [cons_mem_pathsTo, nodeAt?]
    simp only [mem_pathsFrom]
    cases nodes[i]? <;> simp

/-- The paths to nodes are in the order of the document. -/
theorem pairwise_pathsTo (h : ∀ n ∈ nodes, (pathsFrom n).Pairwise (· < ·)) (k : Nat) :
    (pathsTo k nodes).Pairwise (· < ·) := by
  induction nodes generalizing k with
  | nil => exact .nil
  | cons node nodes ih =>
    rw [List.forall_mem_cons] at h
    rw [pathsTo, List.pairwise_append, List.pairwise_map]
    refine ⟨h.1.imp fun hlt => List.cons_lt_cons_iff.mpr (Or.inr ⟨rfl, hlt⟩), ih h.2 _, ?_⟩
    intro p hp q hq
    obtain ⟨r, -, rfl⟩ := List.mem_map.mp hp
    obtain ⟨i, n, s, -, -, rfl⟩ := mem_pathsTo.mp hq
    exact List.cons_lt_cons_iff.mpr (Or.inl (by omega))

theorem pairwise_pathsFrom (node : Json) : (pathsFrom node).Pairwise (· < ·) := by
  induction node using node_induction with
  | h node ih =>
    rw [pathsFrom_eq, List.pairwise_cons]
    refine ⟨fun p hp => ?_, pairwise_pathsTo ih 0⟩
    obtain ⟨i, n, q, -, -, rfl⟩ := mem_pathsTo.mp hp
    exact List.nil_lt_cons _ _

/-! Visits -/

/-- Whether a visit is to the node at a path below nodes, which are themselves below the node at
the path `pre` and in this collection. -/
structure IsVisit (pre : List Nat) (collection : Option String) (nodes : List Json)
    (p : List Nat) (v : Visit) : Prop where
  location : v.location = locationOf (pre ++ p)
  node : nodeAt? nodes p = some v.node
  collection : v.collection = (collectionAt nodes p).or collection

theorem IsVisit.ne_nil {v : Visit} (h : IsVisit pre collection nodes p v) : p ≠ [] := by
  rintro rfl
  exact nomatch h.node

/-- A visit below a node is one below the nodes that the node stands among. -/
theorem IsVisit.cons {v : Visit} (hnode : nodes[i]? = some node)
    (h : IsVisit (pre ++ [i]) (innerCollection collection node) (nodesBelow node) p v) :
    IsVisit pre collection nodes (i :: p) v where
  location := by rw [h.location, List.append_assoc, List.singleton_append]
  node := by
    obtain ⟨j, q, rfl⟩ := List.exists_cons_of_ne_nil h.ne_nil
    rw [nodeAt?_cons hnode, nodeFrom?_cons, h.node]
  collection := by rw [h.collection, collectionAt_cons hnode h.ne_nil]

theorem isVisit_singleton (hnode : nodes[i]? = some node) :
    IsVisit pre collection nodes [i] ⟨collection, locationOf (pre ++ [i]), node⟩ where
  location := rfl
  node := nodeAt?_cons hnode []
  collection := rfl

theorem forall₂_visitNodes_drop
    (h : ∀ n ∈ nodes, ∀ pre collection, List.Forall₂ (IsVisit pre collection (nodesBelow n))
      (pathsTo 0 (nodesBelow n)) (visitNodes collection (listLocation pre) 0 (nodesBelow n)))
    (pre : List Nat) (collection : Option String) (rest : List Json) (k : Nat)
    (hrest : nodes.drop k = rest) :
    List.Forall₂ (IsVisit pre collection nodes) (pathsTo k rest)
      (visitNodes collection (listLocation pre) k rest) := by
  induction rest generalizing k with
  | nil => exact .nil
  | cons node rest ih =>
    have hnode : nodes[k]? = some node := by
      rw [← List.head?_drop, hrest, List.head?_cons]
    have htail : nodes.drop (k + 1) = rest := by
      rw [← List.tail_drop, hrest, List.tail_cons]
    have hmem : node ∈ nodes := List.mem_of_getElem? hnode
    have hbelow := h node hmem (pre ++ [k]) (innerCollection collection node)
    have hlist : listLocation (pre ++ [k]) = locationOf (pre ++ [k]) ++ ".item" :=
      if_neg (by simp)
    rw [pathsTo, visitNodes, locationOf_append, visitNode_eq, pathsFrom_eq, ← hlist]
    refine List.rel_append ?_ (ih (k + 1) htail)
    refine .cons (isVisit_singleton hnode) ?_
    rw [List.forall₂_map_left_iff]
    exact hbelow.imp fun _ _ hvisit => hvisit.cons hnode

theorem forall₂_visitNodes_below (node : Json) (pre : List Nat) (collection : Option String) :
    List.Forall₂ (IsVisit pre collection (nodesBelow node)) (pathsTo 0 (nodesBelow node))
      (visitNodes collection (listLocation pre) 0 (nodesBelow node)) := by
  induction node using node_induction generalizing pre collection with
  | h node ih => exact forall₂_visitNodes_drop ih pre collection _ 0 rfl

/-- The nodes of a document are visited once each, in the order of their paths. -/
theorem forall₂_visitNodes (nodes : List Json) :
    List.Forall₂ (IsVisit [] none nodes) (pathsTo 0 nodes) (visitNodes none "item" 0 nodes) :=
  forall₂_visitNodes_drop (fun node _ => forall₂_visitNodes_below node) [] none nodes 0 rfl

end SdkSmith.Postman
