import SdkSmith.Notice.Basic
import SdkSmith.Postman.Outline
import SdkSmith.Source

/-!
What is said while a source is described.
-/
namespace SdkSmith.Notice
open OpenApi (Document Operation PathItem Schema)

/-! OpenAPI -/

mutual

/-- Whether there is an inline object among a schema's members, so that it moves to the table. -/
def moves : Schema → Bool
  | ⟨_, _, _, _, properties, _, items, allOf, _, _, _, _, _⟩ =>
    (match properties with
      | some ps => movesOfProperties ps
      | none => false)
    || (match items with
      | some i => i.isInlineObject || i.isArrayOfInlineObjects || (i.allOf.isSome && moves i)
      | none => false)
    || (match allOf with
      | some ss => movesOfAll ss
      | none => false)

/-- Whether a property or its items move to the table, or something in them does. -/
def movesOfProperties : List (String × Schema) → Bool
  | [] => false
  | (_, s) :: ps =>
    s.isInlineObject || s.isArrayOfInlineObjects || (s.allOf.isSome && moves s)
      || movesOfProperties ps

/-- Whether something in the members of an allOf moves to the table. -/
def movesOfAll : List Schema → Bool
  | [] => false
  | s :: ss => moves s || movesOfAll ss

end

/-- The bodies of an operation that move to the table, each with its location. -/
def movedBodies (path : String) (method : Api.HttpMethod) (o : Operation) :
    List (String × Schema) :=
  let location := method.name ++ " " ++ path
  let responses := o.responses.filterMap fun (status, r) =>
    (OpenApi.bodySchema? r.content).map fun s => (location ++ " response " ++ status, s)
  ((o.requestSchema?.map fun s => (location, s)).toList ++ responses).filter (·.2.needsName)

/-- Whether something moves to the table before the walk ends: at a body without a name, or at the
end of the document. -/
def hoistsAny (d : Document) : Bool :=
  let bodies := d.operations.flatMap fun (path, _, method, o) => movedBodies path method o
  match d.hoist with
  | .error (.unnamedSchema location false) => !(bodies.takeWhile (·.1 != location)).isEmpty
  | .error _ => !bodies.isEmpty
  | .ok _ => !bodies.isEmpty || d.components.schemas.any fun (_, s) => moves s

/-- What is said while inline schemas move to the table. -/
def ofHoisting (d : Document) : List Notice :=
  if hoistsAny d then [.schemaMoved] else []

/-- What is said about a parameter that no request can carry. -/
def ofParameter (endpoint name place : String) : Option Notice :=
  if ["path", "query", "header"].contains place then none
  else if place = "cookie" then some (.cookieParameter name endpoint)
  else some (.misplacedParameter name place)

/-- What is said about the parameters of operations, up to one that cannot be read. -/
def ofOperations (d : Document) :
    List (String × PathItem × Api.HttpMethod × Operation) → List Notice
  | [] => []
  | (path, item, method, o) :: os =>
    let location := method.name ++ " " ++ path
    match o.parametersOn d.components.parameters item location with
    | .error _ => []
    | .ok ps =>
      ps.filterMap (fun ((name, place), _) => ofParameter location name place)
        ++ ofOperations d os

/-- What is said while the endpoints of a document in normal form are described. -/
def ofNormal (d : Document) : List Notice :=
  match d.components.convert with
  | .error _ => []
  | .ok _ => ofOperations d d.operations

/-- What is said while a document is described. -/
def ofDocument (d : Document) : List Notice :=
  if (d.info.bind (·.title)).isNone || d.paths.isNone then []
  else match d.normalize with
    | .error _ => ofHoisting d
    | .ok n => ofHoisting d ++ ofNormal n

/-! Collections -/

/-- Whether the example of a request's body cannot be read. -/
def hidesBody (i : Postman.Item) : Bool :=
  ((i.request.body.bind Postman.Body.example?).map Json.parse?).any Option.isNone

/-- What is said about a node of a collection. -/
def ofVisit (v : Postman.Visit) : Option Notice :=
  if v.isFolder then none
  else match Postman.readNode Postman.Read.item v.location v.node, v.endpoint? with
    | .ok i, .ok (some e) => if hidesBody i then some (.exampleIgnored e.location) else none
    | _, _ => none

/-- What is said while a value is described as a collection. -/
def ofCollection (v : Json) : List Notice :=
  match Postman.Read.collection (Document.Datum.ofJson v) with
  | .error _ => []
  | .ok c =>
    match c.info.bind (·.name), c.items with
    | some _, some items =>
      (Postman.smoothVisits (Postman.visitNodes none "item" 0 items)).filterMap ofVisit
    | _, _ => []

/-! Sources -/

/-- What is said about the parts of a source. -/
def ofParts (s : Source) : List Notice :=
  match s.format with
  | .openApi => ((Document.parse s.text).toOption.map ofDocument).getD []
  | .postman => ((Postman.decode s.text).toOption.map ofCollection).getD []
  | .har => []

/-- What is said while a source is described. -/
def ofSource (s : Source) (read : Url.Reader) : List Notice :=
  ofParts s ++ match s.describe read with
    | .error _ => []
    | .ok d => [
        .understood s.format d.endpoints.length,
        .described s.format d.endpoints.length d.components.schemas.length]

end SdkSmith.Notice
