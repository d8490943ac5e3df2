import SdkSmith.Client.Resource
import SdkSmith.Client.Template

/-!
The connector: the base URL with its variables, the credentials, and a method for each resource.
-/
namespace SdkSmith.Client
open Php (Class Expr File Method Param Stmt)

/-- Methods that every connector has; no resource's method may hide one. -/
def connectorMethods : List String := [
  "authenticate", "boot", "config", "debug", "defaultAuth", "defaultConfig", "defaultHeaders",
  "defaultQuery", "headers", "middleware", "pool", "query", "resolveBaseUrl", "send",
  "sendAsync", "sender"
]

/-- The parts of a request that a credential may travel in. -/
inductive Carrier
  | header
  | query
deriving DecidableEq, Repr

/-- The class that puts a credential there. -/
def Carrier.authenticator : Carrier → String
  | .header => "HeaderAuthenticator"
  | .query => "QueryAuthenticator"

/-- The arguments of that class. -/
def Carrier.args (key value : Expr) : Carrier → List Expr
  | .header => [value, key]
  | .query => [key, value]

/-- An API key that the client is given. -/
structure Credential where
  key : String
  carrier : Carrier
  description : Option String
deriving DecidableEq, Repr

namespace Credential

/-- The variable that holds the key. -/
def name (c : Credential) : String := Naming.credentialName c.key

/-- The constructor's parameter for the key. -/
def toParam (c : Credential) : Param :=
  { Php.ParamOf.typed c.name .string with
    promoted := some .heirs, doc := docOf [c.description] }

/-- The statement that puts the key to use. -/
def stmt (c : Credential) : Stmt :=
  .expr (.methodCall (.variable "this") "authenticate"
    [.new c.carrier.authenticator (c.carrier.args (.string c.key) (.thisProperty c.name))])

end Credential

/-- The credentials so far, and the variables that are taken. -/
structure Keyring where
  taken : List String
  credentials : List Credential
deriving DecidableEq, Repr

/-- Adds the key that a requirement asks for, unless its variable is taken. A key in a cookie, which
clients cannot send, gives its variable back. -/
def Keyring.add (d : Api.Description) (ring : Keyring) (r : Api.SecurityRequirement) : Keyring :=
  match Table.find? r.scheme d.components.securitySchemes with
  | some (.apiKey key location about) =>
    let name := Naming.credentialName key
    if ring.taken.contains name then ring
    else
      let taken := name :: ring.taken
      match location with
      | .header => ⟨taken, ring.credentials ++ [⟨key, .header, about⟩]⟩
      | .query => ⟨taken, ring.credentials ++ [⟨key, .query, about⟩]⟩
      | .cookie => ⟨taken.erase name, ring.credentials⟩
  | _ => ring

/-- The keys that all requirements ask for. -/
def keyring (d : Api.Description) : Keyring :=
  d.security.foldl (Keyring.add d) ⟨[], []⟩

/-- The credentials, the first one for each variable. -/
def credentials (d : Api.Description) : List Credential :=
  (keyring d).credentials

/-- The elements whose names are not taken, by `taken` or by an earlier one. -/
def firstOfName {α : Type} (name : α → String) (taken : List String) : List α → List α
  | [] => []
  | a :: as =>
    if taken.contains (name a) then firstOfName name taken as
    else a :: firstOfName name (name a :: taken) as

/-- The variable for a variable of the base URL. -/
def serverVariable (p : Api.ServerParameter) : String :=
  Naming.variableName p.name

/-- The variables of the base URL that are members of their own. -/
def serverMembers (d : Api.Description) : List Api.ServerParameter :=
  firstOfName serverVariable (keyring d).taken d.baseUrl.parameters

/-- The constructor's parameter for a variable of the base URL. -/
def serverParam (p : Api.ServerParameter) : Param :=
  ⟨serverVariable p, some .string, p.default.map Expr.string, some .heirs, docOf [p.description]⟩

/-- The parameters of the connector's constructor. -/
def connectorParams (d : Api.Description) : List Param :=
  requiredFirst ((credentials d).map Credential.toParam ++ (serverMembers d).map serverParam)

/-- The constructor, if it has parameters. -/
def addConnectorConstructor (d : Api.Description) (f : File) : File :=
  let f := (credentials d).foldl
    (fun f c => f.addImport ⟨"Saloon\\Http\\Auth\\" ++ c.carrier.authenticator, none⟩) f
  if (connectorParams d).isEmpty then f
  else f.addMethod
    { Method.plain "__construct" (connectorParams d) with
      body := (credentials d).map Credential.stmt }

/-- The expression for the base URL. -/
def baseUrlExpr (d : Api.Description) : Except Failure Expr :=
  Template.render d.baseUrl.url (d.baseUrl.parameters.map fun p => (p.name, serverVariable p))

/-- The headers of every request. -/
def headersMethod : Method :=
  { Method.returning "defaultHeaders" [] .array (.array [
      (.string "Accept", .string "application/json"),
      (.string "Content-Type", .string "application/json")]) with
    visibility := .heirs }

/-- The name of a resource's method. -/
def accessorName (className : String) : String :=
  let name := Naming.variableName className
  if connectorMethods.contains name then name ++ "Resource" else name

/-- Adds the method of a resource. -/
def addAccessor (f : File) (c : ClassRef) : File :=
  let (name, f) := importClass f c "Resource"
  f.addMethod (.returning (accessorName c.name) [] (.named name) (.new name [.variable "this"]))

/-- The classes of the resources, sorted by name. -/
def sortedResources (s : Settings) (p : Plan) : List ClassRef :=
  (p.resources.map fun r => r.classRef s).mergeSort fun a b => !(b.name < a.name)

/-- The connector without members. -/
def connectorStart (s : Settings) : File :=
  let f := File.plain s.namespaceName (Class.empty .plain (connectorName s))
  let (base, f) := importBase f "Saloon\\Http\\Connector" "SaloonConnector"
  { f with declaration := { f.declaration with parent := some base } }

/-- The connector. -/
def connectorFile (d : Api.Description) (s : Settings) (p : Plan) : Except Failure File := do
  let baseUrl ← baseUrlExpr d
  let f := addConnectorConstructor d (connectorStart s)
  let f := f.addMethod (.returning "resolveBaseUrl" [] .string baseUrl)
  let f := f.addMethod headersMethod
  return (sortedResources s p).foldl addAccessor f

end SdkSmith.Client
