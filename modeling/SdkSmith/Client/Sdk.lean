import SdkSmith.Client.Connector

/-!
All the classes of a client.
-/
namespace SdkSmith.Client
open Php (File)

/-- The classes of a client, and the names that gave way. -/
structure Sdk where
  connector : File
  resourceBase : File
  support : List File
  dtos : List File
  responses : List File
  requests : List File
  resources : List File
  collisions : List Collision
deriving Repr

namespace Sdk

/-- Every file, in the order in which they are written. -/
def files (c : Sdk) : List File :=
  c.resourceBase :: c.support ++ c.dtos ++ c.responses ++ c.requests ++ c.resources
    ++ [c.connector]

/-- The file of a class. -/
def find? (c : Sdk) (qualifiedName : String) : Option File :=
  c.files.find? fun f => f.qualifiedName == qualifiedName

/-- The client for a description. -/
def generate (d : Api.Description) (s : Settings) : Except Failure Sdk := do
  s.validate
  let classes := dtoClasses d s
  let dtos := dtoFiles d s classes
  let plan := Plan.ofDescription d s
  let connector ← connectorFile d s plan
  return {
    connector := connector
    resourceBase := Support.resourceFile s
    support := Support.otherFiles s
    dtos := (dtos.filter fun f => !f.isResponse).map (·.file)
    responses := (dtos.filter (·.isResponse)).map (·.file)
    requests := plan.resources.flatMap fun r => r.calls.map (requestFile d s classes r)
    resources := plan.resources.map (resourceFile s)
    collisions := dtos.flatMap (·.collisions) ++ plan.collisions
  }

end Sdk
end SdkSmith.Client
