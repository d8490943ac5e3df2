import SdkSmith.Api.Endpoint
import SdkSmith.Api.Payload
import SdkSmith.Json.Reader
import SdkSmith.Postman.Collection
import SdkSmith.Url.Query

/-!
Requests of a collection as endpoints. A variable in double braces that fills a path segment is a
placeholder, and the first segment of a URL's text is its host.
-/
namespace SdkSmith.Postman

/-- A path segment with a name in double braces becomes a placeholder. -/
def placeholderSegment (segment : String) : String :=
  match (Text.afterLead? "\x7b\x7b" segment).bind (Text.beforeTail? "\x7d\x7d") with
  | some name => if name.isEmpty then segment else ":" ++ name
  | none => segment

/-- A path of segments. -/
def joinSegments (segments : List String) : String :=
  "/" ++ "/".intercalate (segments.map placeholderSegment)

/-- The text up to a query or fragment. -/
def withoutQuery (raw : String) : List Char :=
  raw.toList.takeWhile fun c => c != '?' && c != '#'

/-- The path in the text of a URL. -/
def rawPath (raw : String) : String :=
  let s := withoutQuery raw
  let afterScheme := match Text.cutAt? "://".toList s with
    | some (_, rest) => rest
    | none => s
  joinSegments (((Text.pieces (· == '/') afterScheme).drop 1).map String.ofList)

/-- An entry of a query with a name and a value. -/
def Entry.ofPair (pair : String × String) : Entry :=
  ⟨some pair.1, some (.string pair.2), none⟩

/-- The query in the text of a URL. -/
def rawQuery (raw : String) : List Entry :=
  match Text.cutAt? ['?'] raw.toList with
  | none => []
  | some (_, rest) => (SdkSmith.Url.queryPairs (rest.takeWhile (· != '#'))).map Entry.ofPair

/-- The text of a path segment, alone or as the value of a record. -/
def segmentText? : Json → Option String
  | .string s => some s
  | .object members => (Table.find? "value" members).bind Json.text?
  | _ => none

namespace Url

/-- The path of a URL: from its parts, or else from its text. -/
def pathText (u : Url) : String :=
  match u.path with
  | .joined path => joinSegments (Text.split '/' path)
  | .segments [] => (u.raw.map rawPath).getD ""
  | .segments segments => joinSegments (segments.filterMap segmentText?)

/-- The query of a URL: from its parts, or else from its text. -/
def queryEntries (u : Url) : List Entry :=
  if u.query.isEmpty then (u.raw.map rawQuery).getD [] else u.query

end Url

/-- The text about an entry. -/
def Entry.about (e : Entry) : Option String :=
  Text.unlessBlank (e.description.bind id)

/-- Entries that have a key, as text parameters. -/
def parametersOf (entries : List Entry) (parameter : String → Entry → Api.Parameter) :
    List Api.Parameter :=
  entries.filterMap fun e => e.key.map fun key => parameter key e

/-- A variable of a path. -/
def pathParameter (key : String) (e : Entry) : Api.Parameter :=
  { Api.Parameter.plain key .string with description := e.about }

/-- A header, disabled or not. -/
def headerParameter (key : String) (e : Entry) : Api.Parameter :=
  { Api.Parameter.plain key .string with nullable := true, description := e.about }

/-- An entry of a query. -/
def queryParameter (key : String) (e : Entry) : Api.Parameter :=
  { headerParameter key e with default := e.value.filter Api.isLiteralDefault }

/-- An entry of a form. -/
def formParameter (key : String) (_ : Entry) : Api.Parameter :=
  { Api.Parameter.plain key .string with nullable := true }

namespace Body

/-- The text of a body that is neither a form nor blank. -/
def example? (b : Body) : Option String :=
  if b.mode = some "urlencoded" || b.mode = some "formdata" then none
  else Text.unlessBlank b.raw

/-- The parameters of a body: the entries of a form, or what an example payload shows. -/
def parameters (b : Body) : List Api.Parameter :=
  if b.mode = some "urlencoded" then parametersOf b.urlencoded formParameter
  else if b.mode = some "formdata" then parametersOf b.formdata formParameter
  else match b.example?.bind Json.parse? with
    | some v => (Api.Payload.ofJson v).parameters
    | none => []

end Body

namespace Item

/-- The endpoint of a request. -/
def endpoint (i : Item) : Except Failure Api.Endpoint := do
  let method ← Api.HttpMethod.parse i.request.method
  let url := i.request.url.getD .empty
  return Api.Endpoint.declarePlaceholders { Api.Endpoint.plain i.name method url.pathText with
    description := Text.unlessBlank ((i.request.description.or i.description).bind id)
    pathParameters := parametersOf url.vars pathParameter
    queryParameters := parametersOf url.queryEntries queryParameter
    headerParameters := parametersOf i.request.headers headerParameter
    bodyParameters := (i.request.body.map Body.parameters).getD []
  }

end Item
end SdkSmith.Postman
