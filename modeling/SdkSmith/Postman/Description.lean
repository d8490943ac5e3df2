import SdkSmith.Api.Description
import SdkSmith.Postman.Endpoint

/-!
The description of an API that a collection gives. Requests come in the order of the document; a
folder is the collection of its requests, unless braces in its name show that it stands for a
variable of the path.
-/
namespace SdkSmith.Postman
open Document (Datum Reader)

/-- Whether a folder is a collection of endpoints. -/
def isCollection (folder : String) : Bool :=
  !(folder.toList.any fun c => c == '\x7b' || c == '\x7d')

/-- The name that a node gives itself. -/
def nodeName? (node : Json) : Option String :=
  (node.get? "name").bind Json.text?

/-- Reads a node at a location. -/
def readNode {α : Type} (r : Reader α) (location : String) (node : Json) : Except Failure α :=
  match r (Datum.ofJson node) with
  | .ok v => .ok v
  | .error m => .error (.malformed (.node location (nodeName? node) m))

/-- The endpoint of a node that is a request. -/
def requestEndpoint (collection : Option String) (location : String) (node : Json) :
    Except Failure Api.Endpoint := do
  let i ← readNode Read.item location node
  let e ← i.endpoint
  return { e with collection := collection }

mutual

/-- The endpoints in a node. -/
def walkNode (collection : Option String) (location : String) :
    Json → Except Failure (List Api.Endpoint)
  | .object members =>
    if Table.has "item" members then do
      let folder ← readNode Read.folder location (.object members)
      let inner := if isCollection folder.name then some folder.name else collection
      walkMembers inner location members
    else (requestEndpoint collection location (.object members)).map ([·])
  | node => (requestEndpoint collection location node).map ([·])

/-- The endpoints in the items among the members of a folder. -/
def walkMembers (collection : Option String) (location : String) :
    List (String × Json) → Except Failure (List Api.Endpoint)
  | [] => .ok []
  | (k, .array items) :: ms =>
    if k = "item" then walkNodes collection (location ++ ".item") 0 items
    else walkMembers collection location ms
  | _ :: ms => walkMembers collection location ms

/-- The endpoints in nodes, the first of which has a number. -/
def walkNodes (collection : Option String) (location : String) :
    Nat → List Json → Except Failure (List Api.Endpoint)
  | _, [] => .ok []
  | i, node :: nodes => do
    let es ← walkNode collection (location ++ "[" ++ toString i ++ "]") node
    let rest ← walkNodes collection location (i + 1) nodes
    return es ++ rest

end

/-- The variables of a collection that may hold the base URL, the best first. -/
def baseUrlKeys : List String := ["baseUrl", "base_url", "url"]

/-- The base URL of a collection. -/
def Collection.baseUrl (c : Collection) : Api.BaseUrl :=
  let valueOf (key : String) : Option String :=
    ((c.vars.find? fun v => v.key == some key).bind (·.value)).bind Json.text?
  ⟨(baseUrlKeys.findSome? valueOf).getD "", []⟩

/-- The description that a collection gives. -/
def Collection.describe (c : Collection) : Except Failure Api.Description :=
  match c.info with
  | none => .error (.malformed .noCollectionInfo)
  | some info =>
    match info.name, c.items with
    | none, _ => .error (.malformed .noCollectionName)
    | _, none => .error (.malformed .noCollectionItems)
    | some name, some items => do
      let endpoints ← walkNodes none "item" 0 items
      return { Api.Description.empty with
        name := some name
        description := info.description.bind id
        baseUrl := c.baseUrl
        endpoints := endpoints
      }

/-- The value that a collection's text is. -/
def decode (source : String) : Except Failure Json :=
  match Json.parse? source with
  | some v => .ok v
  | none => .error (.malformed (.undecodable .postmanJson))

/-- The description that a value gives as a collection. -/
def describe (v : Json) : Except Failure Api.Description :=
  match Read.collection (Datum.ofJson v) with
  | .ok c => c.describe
  | .error m => .error (.malformed (.collection m))

end SdkSmith.Postman
