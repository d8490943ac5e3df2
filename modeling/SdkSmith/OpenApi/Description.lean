import SdkSmith.Api.Description
import SdkSmith.Json.Reader
import SdkSmith.OpenApi.Merge
import SdkSmith.OpenApi.Reading
import SdkSmith.OpenApi.References

/-!
The description of an API that an OpenAPI document gives. Schemas come from the normal form of the
document, so whatever a parameter or response refers to is in the table.
-/
namespace SdkSmith.OpenApi

/-- What stands before the name in a reference to a component parameter. -/
def parameterPrefix : String := "#/components/parameters/"

/-- The scheme of a document as a scheme of the API. -/
def SecurityScheme.convert (name : String) : SecurityScheme → Except Failure Api.SecurityScheme
  | .apiKey key place description =>
    match Api.KeyLocation.ofName? place with
    | some location => .ok (.apiKey key location description)
    | none => .error (.malformed (.unknownKeyLocation name place))
  | .http scheme bearerFormat description => .ok (.http scheme bearerFormat description)
  | .oauth2 flows description =>
    .ok <| .oauth2 (flows.map fun (kind, f) =>
      (kind, ⟨f.authorizationUrl, f.tokenUrl, f.refreshUrl, f.scopes⟩)) description
  | .openIdConnect url description => .ok (.openIdConnect url description)
  | .mutualTls description => .ok (.mutualTls description)

/-- Schemes under their names. -/
def convertSchemes : Table SecurityScheme → Except Failure (Table Api.SecurityScheme)
  | [] => .ok []
  | (name, s) :: t => do
    let s ← s.convert name
    let t ← convertSchemes t
    return (name, s) :: t

/-- The named parts of a document. -/
def Components.convert (c : Components) : Except Failure Api.Components := do
  let schemes ← convertSchemes c.securitySchemes
  return {
    securitySchemes := schemes
    schemas := c.schemas.map fun (name, s) => (name, convertSchema c.schemas name s)
    responseSchemas := Table.keys (c.schemas.filter fun (_, s) => s.origin == some .response)
  }

/-- The URL of the first server. -/
def Document.baseUrl (d : Document) : Api.BaseUrl :=
  match d.servers.head? with
  | none => ⟨"", []⟩
  | some s => ⟨s.url, s.vars.map fun (name, v) => ⟨name, v.default, v.description⟩⟩

/-- The schemes that a client has to satisfy, whether together or as alternatives. -/
def Document.requirements (d : Document) : List Api.SecurityRequirement :=
  d.security.flatten.map fun (scheme, scopes) => ⟨scheme, scopes⟩

/-- A path segment with a name in braces becomes a placeholder. -/
def placeholderSegment (segment : String) : String :=
  match (Text.afterLead? "\x7b" segment).bind (Text.beforeTail? "\x7d") with
  | some name => if name.isEmpty then segment else ":" ++ name
  | none => segment

/-- A path with its placeholders marked by colons. -/
def placeholderPath (path : String) : String :=
  "/".intercalate ((Text.split '/' path).map placeholderSegment)

/-- The parameter that a reference leads to, or the parameter itself. -/
def Parameter.resolve (named : Table Parameter) (location : String) (p : Parameter) :
    Except Failure Parameter :=
  match p.reference with
  | none => .ok p
  | some r =>
    match (Text.afterLead? parameterPrefix r).bind fun name => Table.find? name named with
    | some p => .ok p
    | none => .error (.unresolved r location)

/-- The parameters of an operation by name and place; its own replace those of the path. -/
def Operation.parametersOn (o : Operation) (named : Table Parameter) (item : PathItem)
    (location : String) : Except Failure (List ((String × String) × Parameter)) := do
  let ps ← (item.parameters ++ o.parameters).mapM (Parameter.resolve named location)
  return Table.ofList (ps.map fun p => ((p.name, p.location), p))

/-- A default that is a real value and no placeholder for one. -/
def literalDefault? (default : Option Json) : Option Json :=
  default.filter Api.isLiteralDefault

/-- A parameter of the API. -/
def Parameter.convert (p : Parameter) : Api.Parameter where
  name := p.name
  type := match p.schema with
    | some s => match s.target? with
      | some name => .named name
      | none => s.valueType
    | none => .string
  nullable := (p.schema.any Schema.isNullable) || !p.required
  description := Text.unlessBlank p.description
  default := p.schema.bind fun s => literalDefault? s.default

/-- The parameters of a body: its properties, or else the body as a whole. -/
def bodyParameters (table : Table Schema) (s : Schema) : List Api.Parameter :=
  let target := (s.target?.bind fun name => Table.find? name table).getD s
  let body := convertSchema table "data" target
  if body.isObject then
    body.properties.map fun (name, p) =>
      let own := (target.properties.bind (Table.find? name)).bind (·.default)
      { p.toParameter (body.requires name) with default := literalDefault? own }
  else [{ Api.Parameter.plain "data" body.type with nullable := body.nullable }]

/-- A documented response with the name of its schema. -/
def convertResponse (status : String) (r : Response) : Api.Response :=
  ⟨status, (bodySchema? r.content).bind Schema.target?⟩

/-- An endpoint of the API. -/
def Operation.convert (o : Operation) (c : Components) (path : String) (item : PathItem)
    (method : Api.HttpMethod) : Except Failure Api.Endpoint := do
  let ps ← o.parametersOn c.parameters item (method.name ++ " " ++ path)
  let on (place : String) := (ps.filter fun ((_, p), _) => p == place).map (·.2.convert)
  let plain := Api.Endpoint.plain ((o.operationId.or o.summary).getD "") method
    (placeholderPath path)
  return Api.Endpoint.declarePlaceholders { plain with
    collection := o.tags.head?
    description := Text.unlessBlank (o.description.or o.summary)
    pathParameters := (on "path").map fun p => { p with nullable := false }
    queryParameters := on "query"
    headerParameters := on "header"
    bodyParameters := match o.requestSchema? with
      | some s => bodyParameters c.schemas s
      | none => []
    responses := o.responses.map fun (status, r) => convertResponse status r
  }

/-- The description that a document in normal form gives. -/
def Document.convert (d : Document) (title : String) (description : Option String) :
    Except Failure Api.Description := do
  let components ← d.components.convert
  let endpoints ← d.operations.mapM fun (path, item, method, o) =>
    o.convert d.components path item method
  return {
    name := some title
    description := description
    baseUrl := d.baseUrl
    security := d.requirements
    components := components
    endpoints := endpoints
  }

/-- The description that a document gives. -/
def Document.describe (d : Document) : Except Failure Api.Description :=
  match d.info with
  | none => .error (.malformed .noInfo)
  | some info =>
    match info.title with
    | none => .error (.malformed .noTitle)
    | some title => do
      if d.paths.isNone then throw (.malformed .noPaths)
      let d ← d.normalize
      d.convert title info.description

end SdkSmith.OpenApi
