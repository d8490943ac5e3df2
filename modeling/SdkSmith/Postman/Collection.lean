import SdkSmith.Document.Reading

/-!
The part of a Postman collection that a client is made of. Nodes of a collection stay plain values
until they are visited.
-/
namespace SdkSmith
open Document (Datum Fields Mismatch Placed Reader)

namespace Postman

/-- The name and the text about something. -/
structure Info where
  name : Option String
  /-- The text, if something is said at all. -/
  description : Option (Option String)
deriving DecidableEq, Repr

/-- A name with a value: a variable, a header, or an entry of a query or form. -/
structure Entry where
  key : Option String
  value : Option Json
  description : Option (Option String)
deriving Repr

/-- The path of a URL, as one text or in segments. -/
inductive PathSpec
  | joined (path : String)
  | segments (segments : List Json)
deriving Repr

/-- A URL in parts. -/
structure Url where
  raw : Option String
  path : PathSpec
  query : List Entry
  vars : List Entry
deriving Repr

/-- The body of a request. -/
structure Body where
  mode : Option String
  raw : Option String
  urlencoded : List Entry
  formdata : List Entry
deriving Repr

/-- A request. -/
structure Request where
  method : String
  url : Option Url
  headers : List Entry
  body : Option Body
  description : Option (Option String)
deriving Repr

/-- A request with its name. -/
structure Item where
  name : String
  request : Request
  description : Option (Option String)
deriving Repr

/-- A folder of nodes. -/
structure Folder where
  name : String
  items : List Json
deriving Repr

/-- A collection. -/
structure Collection where
  info : Option Info
  items : Option (List Json)
  vars : List Entry
deriving Repr

namespace Url

/-- The URL of which nothing is known. -/
def empty : Url := ⟨none, .segments [], [], []⟩

/-- The URL of a text. -/
def ofRaw (raw : String) : Url := { empty with raw := some raw }

end Url

namespace Request

/-- The method of a request that names none. -/
def defaultMethod : String := "GET"

/-- The request for the URL of a text. -/
def ofRaw (raw : String) : Request := ⟨defaultMethod, some (.ofRaw raw), [], none, none⟩

end Request

/-! Readers -/

namespace Read

/-- The content of a description that is a record. -/
def described : Reader (Option String) := fun d =>
  match d with
  | .record _ _ =>
    Reader.record "Description" ["content"] (fun f => f.optional "content" Reader.text) d
  | _ => .error (.unexpected d "struct variant")

/-- A description: a text, or a record that may hold one. -/
def description : Reader (Option String) :=
  Reader.choice "Description" (fun d => (Reader.text d).map some) described

/-- A named value of a kind. -/
def entry (kind : String) : Reader Entry :=
  Reader.record kind ["key", "value", "description"] fun f =>
    Entry.mk
      <$> f.optional "key" Reader.text
      <*> f.optional "value" Reader.value
      <*> f.optional "description" description

/-- An entry of a list of headers, a query or a form. -/
def keyValue : Reader Entry := entry "KeyValue"

/-- A variable. -/
def variableEntry : Reader Entry := entry "Variable"

/-- A path, as one text or in segments. -/
def pathSpec : Reader PathSpec :=
  Reader.choice "PathSpec" (fun d => (Reader.text d).map .joined)
    (fun d => (Reader.list Reader.value d).map .segments)

/-- A URL in parts. -/
def urlParts : Reader Url :=
  Reader.record "Url" ["raw", "path", "query", "variable"] fun f =>
    Url.mk
      <$> f.optional "raw" Reader.text
      <*> f.withDefault "path" (.segments []) pathSpec
      <*> f.withDefault "query" [] (Reader.list keyValue)
      <*> f.withDefault "variable" [] (Reader.list variableEntry)

/-- A URL, as one text or in parts. -/
def url : Reader Url :=
  Reader.choice "UrlSpec" (fun d => (Reader.text d).map Url.ofRaw) urlParts

/-- A body. -/
def body : Reader Body :=
  Reader.record "Body" ["mode", "raw", "urlencoded", "formdata"] fun f =>
    Body.mk
      <$> f.optional "mode" Reader.text
      <*> f.optional "raw" Reader.text
      <*> f.withDefault "urlencoded" [] (Reader.list keyValue)
      <*> f.withDefault "formdata" [] (Reader.list keyValue)

/-- A request in full. -/
def requestParts : Reader Request :=
  Reader.record "Request" ["method", "url", "header", "body", "description"] fun f =>
    Request.mk
      <$> f.withDefault "method" Request.defaultMethod Reader.text
      <*> f.optional "url" url
      <*> f.withDefault "header" [] (Reader.list keyValue)
      <*> f.optional "body" body
      <*> f.optional "description" description

/-- A request, as its URL or in full. -/
def request : Reader Request :=
  Reader.choice "RequestSpec" (fun d => (Reader.text d).map Request.ofRaw) requestParts

/-- A request with its name. -/
def item : Reader Item :=
  Reader.record "Item" ["name", "request", "description"] fun f =>
    Item.mk
      <$> f.withDefault "name" "" Reader.text
      <*> f.required "request" request
      <*> f.optional "description" description

/-- A folder. -/
def folder : Reader Folder :=
  Reader.record "Folder" ["name", "item"] fun f =>
    Folder.mk
      <$> f.withDefault "name" "" Reader.text
      <*> f.required "item" (Reader.list Reader.value)

/-- The name and the description of a collection. -/
def info : Reader Info :=
  Reader.record "Info" ["name", "description"] fun f =>
    Info.mk
      <$> f.optional "name" Reader.text
      <*> f.optional "description" description

/-- A collection. -/
def collection : Reader Collection :=
  Reader.record "Collection" ["info", "item", "variable"] fun f =>
    Collection.mk
      <$> f.optional "info" info
      <*> f.optional "item" (Reader.list Reader.value)
      <*> f.withDefault "variable" [] (Reader.list variableEntry)

end Read
end Postman
end SdkSmith
