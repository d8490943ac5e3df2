import SdkSmith.Postman.Description

/-!
The nodes of a collection in the order of the document, each with its location and with the folder
that collects it.
-/
namespace SdkSmith.Postman

/-- A node at its place. -/
structure Visit where
  collection : Option String
  location : String
  node : Json
deriving Repr

/-- Whether a node is a folder. -/
def Visit.isFolder (v : Visit) : Bool :=
  (v.node.get? "item").isSome

/-- What a node gives: an endpoint, or nothing for a folder. -/
def Visit.endpoint? (v : Visit) : Except Failure (Option Api.Endpoint) :=
  if v.isFolder then (readNode Read.folder v.location v.node).map fun _ => none
  else (requestEndpoint v.collection v.location v.node).map some

/-- The collection that a folder makes of its nodes. -/
def innerCollection (collection : Option String) (folder : Json) : Option String :=
  let name := (nodeName? folder).getD ""
  if isCollection name then some name else collection

mutual

/-- The visits to a node and to what is in it. -/
def visitNode (collection : Option String) (location : String) : Json → List Visit
  | .object members =>
    let inner := innerCollection collection (.object members)
    ⟨collection, location, .object members⟩ :: visitMembers inner location members
  | node => [⟨collection, location, node⟩]

/-- The visits to the items among the members of a folder. -/
def visitMembers (collection : Option String) (location : String) :
    List (String × Json) → List Visit
  | [] => []
  | (k, .array items) :: ms =>
    if k = "item" then visitNodes collection (location ++ ".item") 0 items
    else visitMembers collection location ms
  | _ :: ms => visitMembers collection location ms

/-- The visits to nodes, the first of which has a number. -/
def visitNodes (collection : Option String) (location : String) : Nat → List Json → List Visit
  | _, [] => []
  | i, node :: nodes =>
    visitNode collection (location ++ "[" ++ toString i ++ "]") node
      ++ visitNodes collection location (i + 1) nodes

end

/-- The visits that succeed before one fails. -/
def smoothVisits (vs : List Visit) : List Visit :=
  vs.takeWhile fun v => v.endpoint?.toOption.isSome

end SdkSmith.Postman
