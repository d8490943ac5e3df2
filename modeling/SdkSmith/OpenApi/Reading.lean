import SdkSmith.Document.Reading
import SdkSmith.OpenApi.Document

/-!
Reading an OpenAPI document. Fields that are not listed are passed over.
-/
namespace SdkSmith
open Document (Datum Fields Mismatch Placed Reader Scalar)

namespace OpenApi
namespace Read

/-- More levels than a readable document can have. -/
def levels : Nat := 130

/-- A type name or a list of them. -/
def typeNames : Reader TypeNames :=
  Reader.choice "SchemaType" (fun d => (Reader.text d).map .single)
    (fun d => (Reader.list Reader.text d).map .several)

/-- The origin with a name. -/
def originNamed (name : String) : Except Mismatch Origin :=
  match name with
  | "request" => .ok .request
  | "response" => .ok .response
  | _ => .error (.noVariant "SchemaOrigin")

/-- An origin, as its name or as a record of its name and nothing. -/
def origin : Reader Origin := fun d =>
  match d with
  | .record [(k, .scalar v)] _ =>
    match k.text?, v.isAbsent with
    | some name, true => originNamed name
    | _, _ => .error (.noVariant "SchemaOrigin")
  | _ => Reader.text d >>= originNamed

/-- The fields of a schema, in order. -/
def schemaFields : List String := [
  "type", "$ref", "title", "description", "properties", "required", "items", "allOf", "format",
  "nullable", "enum", "default", "x-sdk-origin"
]

/-- A schema of so many levels. -/
def schemaTo : Nat → Reader Schema
  | 0 => fun _ => .error .noValue
  | n + 1 => Reader.record "Schema" schemaFields fun f =>
    Schema.mk
      <$> f.optional "type" typeNames
      <*> f.optional "$ref" Reader.text
      <*> f.optional "title" Reader.text
      <*> f.optional "description" Reader.text
      <*> f.optional "properties" (Reader.table (schemaTo n))
      <*> f.optional "required" (Reader.list Reader.text)
      <*> f.optional "items" (schemaTo n)
      <*> f.optional "allOf" (Reader.list (schemaTo n))
      <*> f.optional "format" Reader.text
      <*> f.optional "nullable" Reader.flag
      <*> f.optional "enum" (Reader.list Reader.value)
      <*> f.optional "default" Reader.value
      <*> f.optional "x-sdk-origin" origin

/-- A schema. -/
def schema : Reader Schema := schemaTo levels

/-- The title and what goes with it. -/
def info : Reader Info :=
  Reader.record "Info" ["title", "description", "version"] fun f =>
    Info.mk
      <$> f.optional "title" Reader.text
      <*> f.optional "description" Reader.text
      <*> f.optional "version" Reader.text

/-- A variable of a server. -/
def serverVariable : Reader ServerVariable :=
  Reader.record "ServerVariable" ["default", "description"] fun f =>
    ServerVariable.mk
      <$> f.optional "default" Reader.text
      <*> f.optional "description" Reader.text

/-- A server. -/
def server : Reader Server :=
  Reader.record "Server" ["url", "description", "variables"] fun f =>
    Server.mk
      <$> f.required "url" Reader.text
      <*> f.optional "description" Reader.text
      <*> f.withDefault "variables" [] (Reader.table serverVariable)

/-- A parameter. -/
def parameter : Reader Parameter :=
  Reader.record "Parameter" ["$ref", "name", "in", "description", "required", "schema"] fun f =>
    Parameter.mk
      <$> f.optional "$ref" Reader.text
      <*> f.withDefault "name" "" Reader.text
      <*> f.withDefault "in" "" Reader.text
      <*> f.optional "description" Reader.text
      <*> f.withDefault "required" false Reader.flag
      <*> f.optional "schema" schema

/-- A media type. -/
def mediaType : Reader MediaType :=
  Reader.record "MediaType" ["schema"] fun f => MediaType.mk <$> f.optional "schema" schema

/-- The body of a request. -/
def requestBody : Reader RequestBody :=
  Reader.record "RequestBody" ["description", "required", "content"] fun f =>
    RequestBody.mk
      <$> f.optional "description" Reader.text
      <*> f.withDefault "required" false Reader.flag
      <*> f.withDefault "content" [] (Reader.table mediaType)

/-- A response. -/
def response : Reader Response :=
  Reader.record "Response" ["description", "content"] fun f =>
    Response.mk
      <$> f.optional "description" Reader.text
      <*> f.withDefault "content" [] (Reader.table mediaType)

/-- The fields of an operation, in order. -/
def operationFields : List String := [
  "operationId", "summary", "description", "tags", "parameters", "requestBody", "responses"
]

/-- An operation. -/
def operation : Reader Operation :=
  Reader.record "Operation" operationFields fun f =>
    Operation.mk
      <$> f.optional "operationId" Reader.text
      <*> f.optional "summary" Reader.text
      <*> f.optional "description" Reader.text
      <*> f.withDefault "tags" [] (Reader.list Reader.text)
      <*> f.withDefault "parameters" [] (Reader.list parameter)
      <*> f.optional "requestBody" requestBody
      <*> f.withDefault "responses" [] (Reader.table response)

/-- The fields of a path item, in order. -/
def pathFields : List String := [
  "get", "put", "post", "delete", "options", "head", "patch", "trace", "parameters"
]

/-- A path item. -/
def pathItem : Reader PathItem :=
  Reader.record "PathItem" pathFields fun f =>
    PathItem.mk
      <$> f.optional "get" operation
      <*> f.optional "put" operation
      <*> f.optional "post" operation
      <*> f.optional "delete" operation
      <*> f.optional "options" operation
      <*> f.optional "head" operation
      <*> f.optional "patch" operation
      <*> f.optional "trace" operation
      <*> f.withDefault "parameters" [] (Reader.list parameter)

/-- A flow of OAuth 2. -/
def flow : Reader OAuthFlow :=
  Reader.record "OAuthFlowObject" ["authorizationUrl", "tokenUrl", "refreshUrl", "scopes"] fun f =>
    OAuthFlow.mk
      <$> f.optional "authorizationUrl" Reader.text
      <*> f.optional "tokenUrl" Reader.text
      <*> f.optional "refreshUrl" Reader.text
      <*> f.withDefault "scopes" [] (Reader.table Reader.text)

/-- What follows the type of a security scheme. -/
def schemeOfType (type : String) : Reader SecurityScheme :=
  match type with
  | "apiKey" => Reader.record "apiKey" ["name", "in", "description"] fun f =>
    SecurityScheme.apiKey
      <$> f.required "name" Reader.text
      <*> f.required "in" Reader.text
      <*> f.optional "description" Reader.text
  | "http" => Reader.record "http" ["scheme", "bearerFormat", "description"] fun f =>
    SecurityScheme.http
      <$> f.required "scheme" Reader.text
      <*> f.optional "bearerFormat" Reader.text
      <*> f.optional "description" Reader.text
  | "oauth2" => Reader.record "oauth2" ["flows", "description"] fun f =>
    SecurityScheme.oauth2
      <$> f.withDefault "flows" [] (Reader.table flow)
      <*> f.optional "description" Reader.text
  | "openIdConnect" =>
    Reader.record "openIdConnect" ["openIdConnectUrl", "description"] fun f =>
      SecurityScheme.openIdConnect
        <$> f.required "openIdConnectUrl" Reader.text
        <*> f.optional "description" Reader.text
  | "mutualTLS" => Reader.record "mutualTLS" ["description"] fun f =>
    SecurityScheme.mutualTls <$> f.optional "description" Reader.text
  | _ => fun _ => .error (.noVariant "SecuritySchemeObject")

/-- A security scheme: a record with its type among the members, or a list that begins with it. -/
def securityScheme : Reader SecurityScheme := fun d =>
  match d.settled? with
  | some (.record ms free) =>
    let named := ms.filter fun (k, _) => k.text?.isSome
    match named.partition fun (k, _) => k.text? == some "type" with
    | ([(_, t)], rest) => do
      let type ← Reader.text t
      schemeOfType type (.record rest free)
    | ([], _) => .error (.missingField "type")
    | (_, _) => .error (.duplicateField "type")
  | some (.list (t :: rest) free) => do
    let type ← Reader.text t
    schemeOfType type (.list rest free)
  | _ => .error .noValue

/-- The named parts of a document. -/
def components : Reader Components :=
  Reader.record "Components" ["schemas", "parameters", "securitySchemes"] fun f =>
    Components.mk
      <$> f.withDefault "schemas" [] (Reader.table schema)
      <*> f.withDefault "parameters" [] (Reader.table parameter)
      <*> f.withDefault "securitySchemes" [] (Reader.table securityScheme)

/-- The fields of a document, in order. -/
def documentFields : List String := [
  "openapi", "info", "servers", "paths", "components", "security"
]

/-- A document. -/
def document : Reader Document :=
  Reader.record "OpenApiDocument" documentFields fun f =>
    Document.mk
      <$> f.withDefault "openapi" none (Reader.optional Reader.text)
      <*> f.optional "info" info
      <*> f.withDefault "servers" [] (Reader.list server)
      <*> f.optional "paths" (Reader.table pathItem)
      <*> f.withDefault "components" ⟨[], [], []⟩ components
      <*> f.withDefault "security" [] (Reader.list (Reader.table (Reader.list Reader.text)))

end Read
end OpenApi
end SdkSmith
