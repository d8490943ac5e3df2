import SdkSmith.Client.Request

/-!
Resource classes, one for each collection: a method for each endpoint, which sends its request
through the connector.
-/
namespace SdkSmith.Client
open Php (Class Expr File Method)

/-- The class of a resource. -/
def Resource.classRef (r : Resource) (s : Settings) : ClassRef :=
  ⟨s.resourceNamespace, r.className⟩

/-- The class of an endpoint's request. -/
def Resource.requestRef (r : Resource) (s : Settings) (c : Call) : ClassRef :=
  ⟨r.requestNamespace s, c.requestClass⟩

/-- The method that sends a request of a class. -/
def Call.sendMethod (c : Call) (requestName : String) : Method :=
  let request : Expr := .new requestName (c.members.map fun m => .variable m.name)
  { Method.returning c.method (c.members.map Member.toParam) (.named "Response")
      (.methodCall (.thisProperty "connector") "send" [request]) with
    doc := docOf [c.endpoint.description] }

/-- Adds the method of an endpoint. -/
def addCall (s : Settings) (r : Resource) (f : File) (c : Call) : File :=
  let (name, f) := importClass f (r.requestRef s c) "Request"
  f.addMethod (c.sendMethod name)

/-- The resource class without methods. -/
def resourceStart (s : Settings) (r : Resource) : File :=
  let f := File.plain s.resourceNamespace (Class.empty .plain r.className)
  let (base, f) := importBase f (resourceBase s) "BaseResource"
  ({ f with declaration := { f.declaration with parent := some base } }).addImport
    ⟨"Saloon\\Http\\Response", none⟩

/-- The class of a resource. -/
def resourceFile (s : Settings) (r : Resource) : File :=
  r.calls.foldl (addCall s r) (resourceStart s r)

end SdkSmith.Client
