import SdkSmith.Api.HttpMethod
import SdkSmith.OpenApi.Schema
import SdkSmith.Table

/-!
The part of an OpenAPI document that a client is made of. Tables keep the order of the document.
-/
namespace SdkSmith.OpenApi

/-- The title and what goes with it. -/
structure Info where
  title : Option String
  description : Option String
  version : Option String
deriving DecidableEq, Repr

/-- A variable of a server's URL. -/
structure ServerVariable where
  default : Option String
  description : Option String
deriving DecidableEq, Repr

/-- A server. -/
structure Server where
  url : String
  description : Option String
  vars : Table ServerVariable
deriving DecidableEq, Repr

/-- A parameter, or a reference to one. -/
structure Parameter where
  reference : Option String
  name : String
  location : String
  description : Option String
  required : Bool
  schema : Option Schema
deriving Repr

/-- One media type of a body. -/
structure MediaType where
  schema : Option Schema
deriving Repr

/-- The body of a request. -/
structure RequestBody where
  description : Option String
  required : Bool
  content : Table MediaType
deriving Repr

/-- A documented response. -/
structure Response where
  description : Option String
  content : Table MediaType
deriving Repr

/-- An operation on a path. -/
structure Operation where
  operationId : Option String
  summary : Option String
  description : Option String
  tags : List String
  parameters : List Parameter
  requestBody : Option RequestBody
  responses : Table Response
deriving Repr

/-- The operations on a path by method, and the parameters that they share. -/
structure PathItem where
  get : Option Operation
  put : Option Operation
  post : Option Operation
  delete : Option Operation
  options : Option Operation
  head : Option Operation
  patch : Option Operation
  trace : Option Operation
  parameters : List Parameter
deriving Repr

/-- One flow of OAuth 2. -/
structure OAuthFlow where
  authorizationUrl : Option String
  tokenUrl : Option String
  refreshUrl : Option String
  scopes : Table String
deriving DecidableEq, Repr

/-- How a client proves who it is. -/
inductive SecurityScheme
  | apiKey (name location : String) (description : Option String)
  | http (scheme : String) (bearerFormat description : Option String)
  | oauth2 (flows : Table OAuthFlow) (description : Option String)
  | openIdConnect (url : String) (description : Option String)
  | mutualTls (description : Option String)
deriving Repr

/-- The named parts of a document. -/
structure Components where
  schemas : Table Schema
  parameters : Table Parameter
  securitySchemes : Table SecurityScheme
deriving Repr

/-- A document. -/
structure Document where
  version : Option String
  info : Option Info
  servers : List Server
  paths : Option (Table PathItem)
  components : Components
  security : List (Table (List String))
deriving Repr

namespace PathItem

/-- The operations with their methods, in the order in which a path item declares them. -/
def operations (p : PathItem) : List (Api.HttpMethod × Operation) :=
  [(.get, p.get), (.put, p.put), (.post, p.post), (.delete, p.delete), (.options, p.options),
    (.head, p.head), (.patch, p.patch), (.trace, p.trace)].filterMap
    fun (method, o) => o.map fun o => (method, o)

end PathItem

/-- Whether a media type is JSON. -/
def isJsonType (mime : String) : Bool :=
  mime == "application/json" || (Text.beforeTail? "+json" mime).isSome

/-- The media type of a body that counts: the first JSON one, or else the first. -/
def jsonType? (content : Table MediaType) : Option String :=
  let mimes := Table.keys content
  (mimes.find? isJsonType).or mimes.head?

/-- The schema of a body. -/
def bodySchema? (content : Table MediaType) : Option Schema :=
  (jsonType? content).bind fun mime => (Table.find? mime content).bind (·.schema)

/-- A body with another schema. -/
def withBodySchema (content : Table MediaType) (s : Schema) : Table MediaType :=
  match jsonType? content with
  | some mime => Table.put mime ⟨some s⟩ content
  | none => content

namespace Operation

/-- The schema of the request body. -/
def requestSchema? (o : Operation) : Option Schema :=
  o.requestBody.bind fun b => bodySchema? b.content

end Operation

/-- The paths with each operation and its method. -/
def Document.operations (d : Document) :
    List (String × PathItem × Api.HttpMethod × Operation) :=
  (d.paths.getD []).flatMap fun (path, item) =>
    item.operations.map fun (method, o) => (path, item, method, o)

end SdkSmith.OpenApi
