import SdkSmith.Api.Description
import SdkSmith.Naming.Fresh
import SdkSmith.Settings

/-!
The names in a client, decided once: resources and their methods, request classes and the members
of each request. A name that is taken gives way, and every renaming is reported.
-/
namespace SdkSmith.Client

/-- Where a parameter travels in a request. -/
inductive Place
  | path
  | body
  | query
  | header
deriving DecidableEq, Repr

/-- A parameter with the name of its variable. -/
structure Member where
  place : Place
  name : String
  parameter : Api.Parameter
deriving Repr

namespace Member

/-- Whether null may be given; a path has no place for it. -/
def nullable (m : Member) : Bool :=
  m.place != .path && m.parameter.nullable

/-- The name in the request. -/
def wireName (m : Member) : String := m.parameter.name

/-- The default, if it is a real value. -/
def default? (m : Member) : Option Json :=
  m.parameter.default.filter Api.isLiteralDefault

end Member

/-- What a renamed identifier names. -/
inductive CollisionKind
  | method
  | parameter
  | property
deriving DecidableEq, Repr

/-- A name that was taken, and what stands for it. -/
structure Collision where
  kind : CollisionKind
  /-- The class in which the name was taken. -/
  owner : String
  /-- The endpoint or schema whose name or member this is. -/
  source : String
  wanted : String
  substituted : String
deriving DecidableEq, Repr

/-- An endpoint with its names. -/
structure Call where
  endpoint : Api.Endpoint
  method : String
  requestClass : String
  /-- The members of the path, the body, the query and the headers, in that order. -/
  members : List Member
deriving Repr

/-- The members in one place. -/
def Call.membersIn (c : Call) (p : Place) : List Member :=
  c.members.filter fun m => m.place == p

/-- The endpoints of one collection. -/
structure Resource where
  className : String
  /-- The collection that the class is named for. -/
  label : String
  calls : List Call
deriving Repr

/-- The namespace of a resource's requests. -/
def Resource.requestNamespace (r : Resource) (s : Settings) : String :=
  s.requestNamespace ++ "\\" ++ r.className

/-- Every resource, in the order of first use, and every name that gave way. -/
structure Plan where
  resources : List Resource
  collisions : List Collision
deriving Repr

/-! Classes at fixed names -/

/-- The base class of resources. -/
def resourceBase (s : Settings) : String := s.namespaceName ++ "\\Resource"

/-- The base class of data classes. -/
def dtoBase (s : Settings) : String := s.namespaceName ++ "\\Dto"

/-- The contract of data classes. -/
def deserializable (s : Settings) : String := s.namespaceName ++ "\\Contracts\\Deserializable"

/-- The trait of data classes. -/
def fieldMapTrait (s : Settings) : String := s.namespaceName ++ "\\Concerns\\HasFieldMap"

/-- The class name of the connector. -/
def connectorName (s : Settings) : String :=
  Naming.className s.connectorName "Connector"

/-- The classes that every client has under the same name. -/
def fixedClasses (s : Settings) : List String := [
  resourceBase s, dtoBase s, deserializable s, fieldMapTrait s,
  s.namespaceName ++ "\\" ++ connectorName s
]

/-! Members of a request -/

/-- Members so far, and the variables that gave way: what was wanted, and what stands for it. -/
structure Lineup where
  members : List Member
  renamed : List (String × String)
deriving Repr

namespace Lineup

/-- No members. -/
def empty : Lineup := ⟨[], []⟩

/-- The variables of the members. -/
def names (l : Lineup) : List String :=
  l.members.map (·.name)

/-- Adds a member under its variable, or under the first free duplicate of it. -/
def add (l : Lineup) (place : Place) (wanted : String) (p : Api.Parameter) : Lineup :=
  let name := Naming.freshVariable l.names wanted
  { members := l.members ++ [⟨place, name, p⟩]
    renamed := if name = wanted then l.renamed else l.renamed ++ [(wanted, name)] }

/-- Adds a parameter under the variable of its name. -/
def addNamed (place : Place) (l : Lineup) (p : Api.Parameter) : Lineup :=
  l.add place (Naming.variableName p.name) p

end Lineup

/-- The parameter of a placeholder: a declared one of the same variable, or else a string. -/
def placeholderParameter (e : Api.Endpoint) (name : String) : Api.Parameter :=
  (e.pathParameters.find? fun p => Naming.variableName p.name == Naming.variableName name).getD
    (.plain name .string)

/-- The members of a path: one for each placeholder, then those that were declared besides. -/
def pathMembers (e : Api.Endpoint) : Lineup :=
  let placed := e.placeholders.foldl
    (fun l name => l.add .path (Naming.variableName name) (placeholderParameter e name)) .empty
  e.pathParameters.foldl
    (fun l p => if l.names.contains (Naming.variableName p.name) then l
      else l.addNamed .path p) placed

/-- The parameters that are sent: those neither ignored nor named like a type. -/
def sent (ignores : String → Bool) (ps : List Api.Parameter) : List Api.Parameter :=
  ps.filter fun p => !(ignores p.name || Naming.isTypeAnnotation p.name)

/-- The members of a request. -/
def members (s : Settings) (e : Api.Endpoint) : Lineup :=
  let l := pathMembers e
  let l := (sent s.ignoresBody e.bodyParameters).foldl (Lineup.addNamed .body) l
  let l := (sent s.ignoresQuery e.queryParameters).foldl (Lineup.addNamed .query) l
  (sent s.ignoresHeader e.headerParameters).foldl (Lineup.addNamed .header) l

/-! Resources -/

/-- The collection of an endpoint. -/
def labelOf (s : Settings) (e : Api.Endpoint) : String :=
  (Text.unlessBlank e.collection).getD s.fallbackResource

/-- The class of a collection's resource, which keeps clear of the fixed classes. -/
def resourceClassOf (s : Settings) (label : String) : String :=
  let name := Naming.className label "Resource"
  if (fixedClasses s).contains (s.resourceNamespace ++ "\\" ++ name) then name ++ "Resource"
  else name

/-- The text that a method is named for. -/
def sourceName (e : Api.Endpoint) : String :=
  if Text.onlyBlanks e.name then e.fallbackName else e.name

/-- The classes that request and resource files import under these names. -/
def importedNames : List String := ["Request", "Response", "Method", "HasBody", "HasJsonBody"]

/-- The wanted class name of a method's request. -/
def requestClassOf (method : String) : String :=
  let name := Naming.className method "Request"
  if importedNames.contains name then name ++ "Request" else name

namespace Resource

/-- A resource without endpoints. -/
def empty (className label : String) : Resource := ⟨className, label, []⟩

/-- An endpoint with names that are free in the resource, and the names that gave way. -/
def plan (r : Resource) (s : Settings) (e : Api.Endpoint) : Call × List Collision :=
  let source := sourceName e
  let wanted := Naming.variableName source
  let method := Naming.freshVariable (r.calls.map (·.method)) wanted
  let requestClass :=
    Naming.freshNumbered (r.calls.map (·.requestClass)) (requestClassOf method)
  let lineup := members s e
  let renamedMethod : List Collision :=
    if method = wanted then [] else [⟨.method, r.className, source, wanted, method⟩]
  let renamedMembers : List Collision :=
    lineup.renamed.map fun (wanted, substituted) =>
      ⟨.parameter, requestClass, source, wanted, substituted⟩
  (⟨e, method, requestClass, lineup.members⟩, renamedMethod ++ renamedMembers)

/-- Adds an endpoint. -/
def add (r : Resource) (c : Call) : Resource :=
  { r with calls := r.calls ++ [c] }

end Resource

namespace Plan

/-- The plan of nothing. -/
def empty : Plan := ⟨[], []⟩

/-- The resource of a class. -/
def find? (p : Plan) (className : String) : Option Resource :=
  p.resources.find? fun r => r.className == className

/-- Puts a resource in the place of the one of its class, or at the end. -/
def putResource (r : Resource) : List Resource → List Resource
  | [] => [r]
  | q :: qs => if q.className = r.className then r :: qs else q :: putResource r qs

/-- Adds an endpoint. -/
def add (s : Settings) (p : Plan) (e : Api.Endpoint) : Plan :=
  let label := labelOf s e
  let className := resourceClassOf s label
  let r := (p.find? className).getD (.empty className label)
  let (call, collisions) := r.plan s e
  ⟨putResource (r.add call) p.resources, p.collisions ++ collisions⟩

/-- The plan of a client. -/
def ofDescription (d : Api.Description) (s : Settings) : Plan :=
  d.endpoints.foldl (add s) .empty

end Plan
end SdkSmith.Client
