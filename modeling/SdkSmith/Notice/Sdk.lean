import SdkSmith.Client.Sdk
import SdkSmith.Notice.Basic

/-!
What is said while a client is generated.
-/
namespace SdkSmith.Notice
open Client (Collision Plan Sdk)

/-- What is said about the data classes. -/
def ofDtos (d : Api.Description) (s : Settings) : List Notice :=
  let classes := Client.dtoClasses d s
  let without := d.components.schemas.filter fun (_, schema) => !schema.isObject
  without.map (fun (name, _) => .schemaWithoutClass name)
    ++ (Client.dtoFiles d s classes).flatMap (fun f => f.collisions.map .renamed)
    ++ classes.map (fun (name, c) => .dtoMade name c.qualifiedName)

/-- What is said about the names in a client. -/
def ofPlan (p : Plan) : List Notice :=
  p.collisions.map .renamed
    ++ p.resources.flatMap fun r => r.calls.map fun c =>
      .callPlanned c.endpoint.location c.method c.requestClass

/-- What is said about the requests and resources. -/
def ofResources (s : Settings) (p : Plan) : List Notice :=
  p.resources.flatMap (fun r => r.calls.map fun c =>
      .requestMade c.endpoint.location (r.requestNamespace s ++ "\\" ++ c.requestClass))
    ++ p.resources.map fun r => .resourceMade r.label (r.classRef s).qualifiedName

/-- What is said about requirements, given the variables of the credentials so far. -/
def ofRequirements (d : Api.Description) :
    List String → List Api.SecurityRequirement → List Notice
  | _, [] => []
  | taken, r :: rs =>
    match Table.find? r.scheme d.components.securitySchemes with
    | none => .undeclaredScheme r.scheme :: ofRequirements d taken rs
    | some (.apiKey key location _) =>
      let name := Naming.credentialName key
      if taken.contains name then ofRequirements d taken rs
      else if location = .cookie then .cookieKey r.scheme :: ofRequirements d taken rs
      else ofRequirements d (name :: taken) rs
    | some _ => .unsupportedScheme r.scheme :: ofRequirements d taken rs

/-- What is said while a client is generated. -/
def ofGeneration (d : Api.Description) (s : Settings) : List Notice :=
  match s.validate with
  | .error _ => []
  | .ok _ =>
    let p := Plan.ofDescription d s
    ofDtos d s ++ ofPlan p ++ ofResources s p ++ ofRequirements d [] d.security
      ++ match Sdk.generate d s with
        | .error _ => []
        | .ok c => [
            .connectorMade c.connector.qualifiedName,
            .generated c.requests.length c.resources.length (c.dtos.length + c.responses.length)
              c.collisions.length]

end SdkSmith.Notice
