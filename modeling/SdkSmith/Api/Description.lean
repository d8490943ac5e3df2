import SdkSmith.Api.Endpoint

/-!
The description of an API, whatever format it came in: base URL, security, the table of named
schemas and the endpoints.
-/
namespace SdkSmith.Api

/-- Where an API key travels. -/
inductive KeyLocation
  | query
  | header
  | cookie
deriving DecidableEq, Repr

/-- The word for a location. -/
def KeyLocation.name : KeyLocation → String
  | .query => "query"
  | .header => "header"
  | .cookie => "cookie"

/-- The location a word stands for. -/
def KeyLocation.ofName? : String → Option KeyLocation
  | "query" => some .query
  | "header" => some .header
  | "cookie" => some .cookie
  | _ => none

/-- One flow of OAuth 2. -/
structure OAuthFlow where
  authorizationUrl : Option String
  tokenUrl : Option String
  refreshUrl : Option String
  scopes : Table String
deriving DecidableEq, Repr

/-- How a client proves who it is. -/
inductive SecurityScheme
  | apiKey (name : String) (location : KeyLocation) (description : Option String)
  | http (scheme : String) (bearerFormat description : Option String)
  | oauth2 (flows : Table OAuthFlow) (description : Option String)
  | openIdConnect (url : String) (description : Option String)
  | mutualTls (description : Option String)
deriving Repr

/-- A scheme by name, with the scopes asked of it. -/
structure SecurityRequirement where
  scheme : String
  scopes : List String
deriving DecidableEq, Repr

/-- A variable of the base URL. -/
structure ServerParameter where
  name : String
  default : Option String
  description : Option String
deriving DecidableEq, Repr

/-- A URL with variables in braces. -/
structure BaseUrl where
  url : String
  parameters : List ServerParameter
deriving DecidableEq, Repr

/-- The named parts of a description. -/
structure Components where
  securitySchemes : Table SecurityScheme
  schemas : Table Schema
  /-- The schemas that came from response bodies. -/
  responseSchemas : List String
deriving Repr

/-- Whether a schema came from a response body. -/
def Components.isResponse (c : Components) (name : String) : Bool :=
  c.responseSchemas.contains name

/-- The description of an API. -/
structure Description where
  name : Option String
  description : Option String
  baseUrl : BaseUrl
  security : List SecurityRequirement
  components : Components
  endpoints : List Endpoint
deriving Repr

/-- A description of nothing. -/
def Description.empty : Description :=
  ⟨none, none, ⟨"", []⟩, [], ⟨[], [], []⟩, []⟩

end SdkSmith.Api
