import SdkSmith.Client.Dto

/-!
Request classes, one for each endpoint: the path with its members in place, the constructor, the
values for body, query and headers, and the class of a successful response.
-/
namespace SdkSmith.Client
open Php (Class Expr File Method Param Part PhpType)

/-- A member as a typed parameter. -/
def Member.toParam (m : Member) : Param :=
  let default := match m.default?.bind Expr.ofJson? with
    | some e => some e
    | none => if m.nullable then some .null else none
  ⟨m.name, some ((phpType m.parameter.type).orNull m.nullable), default, none, none⟩

/-- Whether a member of the path stands for a placeholder. -/
def Member.standsFor (m : Member) (placeholder : String) : Bool :=
  m.parameter.name == placeholder || m.name == Naming.camelCase placeholder

/-- The property that a placeholder is replaced by. -/
def Call.propertyFor (c : Call) (placeholder : String) : String :=
  match (c.membersIn .path).find? fun m => m.standsFor placeholder with
  | some m => m.name
  | none => placeholder

/-- The parts of a path, after literal text that is not yet a part of its own. -/
def endpointParts (property : String → String) : String → List Api.PathSegment → List Part
  | text, [] => if text.isEmpty then [] else [.literal text]
  | text, .literal t :: segments => endpointParts property (text ++ "/" ++ t) segments
  | text, .placeholder name :: segments =>
    .literal (text ++ "/") :: .property name (property name) :: endpointParts property "" segments

/-- The expression for a path. -/
def Call.endpointExpr (c : Call) : Expr :=
  if c.endpoint.segments.isEmpty then .string "/"
  else match endpointParts c.propertyFor "" c.endpoint.segments with
    | [.literal text] => .string text
    | parts => .interpolated parts

/-- The method that gives the values of one place, those that are null left out. -/
def valuesMethod (name : String) (ms : List Member) : Method :=
  let entries := ms.map fun m => (Expr.string m.wireName, Expr.thisProperty m.name)
  let isGiven : Expr :=
    .arrowFn [.untyped "value"] (.notIdentical (.variable "value") .null)
  { Method.returning name [] .array (.call "array_filter" [.array entries, isGiven]) with
    visibility := .heirs }

/-- The class of a successful response, and whether the response is a list of it. -/
def responseClass? (d : Api.Description) (classes : DtoClasses) (e : Api.Endpoint) :
    Option (ClassRef × Bool) :=
  e.successSchema?.bind fun name =>
    match Table.find? name classes with
    | some c => some (c, false)
    | none =>
      (((Table.find? name d.components.schemas).bind (·.itemSchemaName?)).bind fun item =>
        Table.find? item classes).map fun c => (c, true)

/-- The expression that makes objects of a response. -/
def responseExpr (className : String) (isList : Bool) : Expr :=
  let json : Expr := .methodCall (.variable "response") "json" []
  if isList then
    .call "array_map" [.arrowFn [.typed "item" .array]
      (.staticCall className "fromArray" [.variable "item"]), json]
  else .staticCall className "fromArray" [json]

/-- Adds the method that makes objects of a response. -/
def addResponse (f : File) (c : ClassRef) (isList : Bool) : File :=
  let f := f.addImport ⟨"Saloon\\Http\\Response", none⟩
  let (name, f) := importClass f c "Dto"
  f.addMethod (.returning "createDtoFromResponse" [.typed "response" (.named "Response")] .mixed
    (responseExpr name isList))

/-- Adds the method for the values of one place, if there are any. -/
def addValues (f : File) (name : String) (ms : List Member) : File :=
  if ms.isEmpty then f else f.addMethod (valuesMethod name ms)

/-- Makes the class one with a body, if there are members for it. -/
def addBody (f : File) (ms : List Member) : File :=
  if ms.isEmpty then f
  else
    let c := { f.declaration with
      contracts := f.declaration.contracts ++ ["HasBody"]
      traits := f.declaration.traits ++ ["HasJsonBody"] }
    let f := ({ f with declaration := c }).addImport ⟨"Saloon\\Contracts\\Body\\HasBody", none⟩
    addValues (f.addImport ⟨"Saloon\\Traits\\Body\\HasJsonBody", none⟩) "defaultBody" ms

/-- The request class without members. -/
def requestStart (s : Settings) (r : Resource) (c : Call) : File :=
  let method : Php.Property :=
    ⟨"method", .heirs, false, some (.named "Method"),
      some (.classConst "Method" c.endpoint.method.name)⟩
  let f := File.plain (r.requestNamespace s) { Class.empty .plain c.requestClass with
    parent := some "Request"
    doc := docOf [some c.endpoint.name, c.endpoint.description]
    properties := [method] }
  let f := f.addImport ⟨"Saloon\\Enums\\Method", none⟩
  f.addImport ⟨"Saloon\\Http\\Request", none⟩

/-- Adds the constructor, if there are members. -/
def addConstructor (f : File) (ms : List Member) : File :=
  if ms.isEmpty then f
  else f.addMethod (.plain "__construct"
    (ms.map fun m => { m.toParam with promoted := some .heirs }))

/-- The request class of an endpoint. -/
def requestFile (d : Api.Description) (s : Settings) (classes : DtoClasses) (r : Resource)
    (c : Call) : File :=
  let f := requestStart s r c
  let f := f.addMethod (.returning "resolveEndpoint" [] .string c.endpointExpr)
  let f := addConstructor f c.members
  let f := addBody f (c.membersIn .body)
  let f := addValues f "defaultQuery" (c.membersIn .query)
  let f := addValues f "defaultHeaders" (c.membersIn .header)
  match responseClass? d classes c.endpoint with
  | some (c, isList) => addResponse f c isList
  | none => f

end SdkSmith.Client
