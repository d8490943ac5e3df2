import SdkSmith.Api.HttpMethod
import SdkSmith.Api.Schema

/-!
Endpoints: a method, a path of literal and placeholder segments, parameters by place, and the
documented responses.
-/
namespace SdkSmith.Api

/-- One segment of a path. -/
inductive PathSegment
  | literal (text : String)
  | placeholder (name : String)
deriving DecidableEq, Repr

namespace PathSegment

/-- A segment from its text: a colon and a name make a placeholder. -/
def parse (text : String) : PathSegment :=
  match text.toList with
  | ':' :: c :: r => .placeholder (String.ofList (c :: r))
  | _ => .literal text

/-- The text of a segment. -/
def render : PathSegment → String
  | .literal text => text
  | .placeholder name => ":" ++ name

/-- The name of a placeholder. -/
def name? : PathSegment → Option String
  | .literal _ => none
  | .placeholder name => some name

end PathSegment

/-- A documented response and the schema of its body. -/
structure Response where
  status : String
  schema : Option String
deriving DecidableEq, Repr

/-- Whether the status tells of success. -/
def Response.isSuccess (r : Response) : Bool :=
  r.status.toList.head? == some '2'

/-- One operation of an API. -/
structure Endpoint where
  name : String
  method : HttpMethod
  segments : List PathSegment
  collection : Option String
  description : Option String
  pathParameters : List Parameter
  queryParameters : List Parameter
  bodyParameters : List Parameter
  headerParameters : List Parameter
  responses : List Response
deriving Repr

namespace Endpoint

/-- The components of a path that are not empty, as segments. -/
def segmentsOf (path : String) : List PathSegment :=
  ((Text.split '/' path).filter fun s => !s.isEmpty).map PathSegment.parse

/-- An endpoint with nothing but a name, a method and a path. -/
def plain (name : String) (method : HttpMethod) (path : String) : Endpoint :=
  ⟨name, method, segmentsOf path, none, none, [], [], [], [], []⟩

/-- The path, with a colon before each placeholder. -/
def path (e : Endpoint) : String :=
  "/" ++ "/".intercalate (e.segments.map PathSegment.render)

/-- The names of the placeholders, in order. -/
def placeholders (e : Endpoint) : List String :=
  e.segments.filterMap PathSegment.name?

/-- The schema of the first successful response that has one. -/
def successSchema? (e : Endpoint) : Option String :=
  (e.responses.filter Response.isSuccess).findSome? (·.schema)

/-- A name made of the method and the path. -/
def fallbackName (e : Endpoint) : String :=
  " ".intercalate <| Text.lower e.method.name :: e.segments.map fun
    | .literal text => text
    | .placeholder name => "by " ++ name

/-- The method and the path, for messages. -/
def location (e : Endpoint) : String :=
  e.method.name ++ " " ++ e.path

/-- The placeholders that no path parameter names, in camel case. -/
def undeclared (e : Endpoint) : List String :=
  e.placeholders.filter fun name =>
    !(e.pathParameters.any fun p => Naming.camelCase p.name == Naming.camelCase name)

/-- Declares each placeholder that no path parameter names, as a string. -/
def declarePlaceholders (e : Endpoint) : Endpoint :=
  { e with
    pathParameters :=
      e.pathParameters ++ e.undeclared.map fun name => Parameter.plain name .string }

end Endpoint
end SdkSmith.Api
