import SdkSmith.Document.Reading
import SdkSmith.Failure
import SdkSmith.Json.Reader
import SdkSmith.Naming.Casing
import SdkSmith.Toml.Reader

/-!
The settings of a run: the names it may not derive, the namespaces of what it makes, and which
parameters to leave out. Unknown keys are kept aside.
-/
namespace SdkSmith
open Document

/-- The settings of a run. -/
structure Settings where
  connectorName : String
  rootNamespace : String
  resourceSuffix : String
  requestSuffix : String
  dtoSuffix : String
  responseSuffix : String
  /-- The collection of endpoints without one. -/
  fallbackResource : String
  outputDir : String
  /-- Whether existing files are overwritten. -/
  force : Bool
  ignoredQuery : List String
  ignoredBody : List String
  ignoredHeaders : List String
  /-- Free settings for other tools. -/
  extra : Table Json
  /-- Unknown keys, sorted. -/
  unknown : List String
deriving Repr

namespace Settings

/-- The settings with nothing but the two required names. -/
def new (connectorName rootNamespace : String) : Settings where
  connectorName := connectorName
  rootNamespace := rootNamespace
  resourceSuffix := "Resource"
  requestSuffix := "Requests"
  dtoSuffix := "Dto"
  responseSuffix := "Responses"
  fallbackResource := "Misc"
  outputDir := "build"
  force := false
  ignoredQuery := []
  ignoredBody := []
  ignoredHeaders := []
  extra := []
  unknown := []

/-- The keys of a configuration. -/
def keys : List String := [
  "connectorName", "namespace", "resourceNamespaceSuffix", "requestNamespaceSuffix",
  "dtoNamespaceSuffix", "responseNamespaceSuffix", "fallbackResourceName", "outputDir", "force",
  "ignoredQueryParams", "ignoredBodyParams", "ignoredHeaderParams", "extra"
]

/-- The keys that have to be present. -/
def requiredKeys : List String := ["connectorName", "namespace"]

/-- The classes that every run makes under the root namespace. -/
def baseClasses : List String := ["Dto", "Resource"]

/-- Keys that no configuration has, sorted. -/
def unknownKeys (members : List (String × Json)) : List String :=
  ((members.map (·.1)).filter fun k => !keys.contains k).mergeSort fun a b => !(b < a)

/-- Settings from the members of a configuration. -/
def ofFields (unknown : List String) (f : Fields) : Placed Settings :=
  let d := Settings.new "" ""
  let suffix (name other : String) := f.withDefault name other Reader.text
  let names (name : String) := f.withDefault name [] (Reader.list Reader.text)
  Settings.mk
    <$> f.required "connectorName" Reader.text
    <*> f.required "namespace" Reader.text
    <*> suffix "resourceNamespaceSuffix" d.resourceSuffix
    <*> suffix "requestNamespaceSuffix" d.requestSuffix
    <*> suffix "dtoNamespaceSuffix" d.dtoSuffix
    <*> suffix "responseNamespaceSuffix" d.responseSuffix
    <*> suffix "fallbackResourceName" d.fallbackResource
    <*> suffix "outputDir" d.outputDir
    <*> f.withDefault "force" false Reader.flag
    <*> names "ignoredQueryParams"
    <*> names "ignoredBodyParams"
    <*> names "ignoredHeaderParams"
    <*> f.withDefault "extra" [] (Reader.table Reader.value)
    <*> pure unknown

/-- Refuses what no run can honour. -/
def validate (s : Settings) : Except Failure Unit :=
  let connector := Naming.studlyCase s.connectorName
  if Text.onlyBlanks s.connectorName then .error (.setting "connectorName" .empty)
  else if baseClasses.contains connector then
    .error (.setting "connectorName" (.baseClass connector))
  else if Text.onlyBlanks s.rootNamespace then .error (.setting "namespace" .empty)
  else .ok ()

/-- Settings from a value. -/
def ofJson (v : Json) : Except Failure Settings :=
  match v with
  | .object members =>
    match requiredKeys.find? fun k => !Table.has k members with
    | some k => .error (.setting k .missing)
    | none =>
      match Reader.record "Config" keys (ofFields (unknownKeys members)) (Datum.ofJson v) with
      | .error m => .error (.setting "<root>" (.mismatch m))
      | .ok s => do
        s.validate
        return s
  | _ => .error (.setting "<root>" .notAMap)

/-- Settings from JSON text. -/
def parseJson (source : String) : Except Failure Settings :=
  match Json.parse? source with
  | some v => ofJson v
  | none => .error (.setting "<root>" .undecodableJson)

/-- Settings from TOML text. -/
def parseToml (source : String) : Except Failure Settings :=
  match Toml.parse? source with
  | some v => ofJson v
  | none => .error (.setting "<root>" .undecodableToml)

/-- The root namespace, without separators at its ends. -/
def namespaceName (s : Settings) : String :=
  Text.trimOf '\\' s.rootNamespace

/-- A namespace below the root, or the root for an empty suffix. -/
def subNamespace (s : Settings) (suffix : String) : String :=
  let suffix := Text.trimOf '\\' suffix
  if suffix.isEmpty then s.namespaceName else s.namespaceName ++ "\\" ++ suffix

/-- The namespace of resources. -/
def resourceNamespace (s : Settings) : String := s.subNamespace s.resourceSuffix

/-- The namespace of requests, above one for each resource. -/
def requestNamespace (s : Settings) : String := s.subNamespace s.requestSuffix

/-- The namespace of data classes. -/
def dtoNamespace (s : Settings) : String := s.subNamespace s.dtoSuffix

/-- The namespace of data classes for responses. -/
def responseNamespace (s : Settings) : String := s.subNamespace s.responseSuffix

/-- Whether a query parameter is left out. -/
def ignoresQuery (s : Settings) (name : String) : Bool :=
  s.ignoredQuery.contains name

/-- Whether a body parameter is left out. -/
def ignoresBody (s : Settings) (name : String) : Bool :=
  s.ignoredBody.contains name

/-- Whether a header is left out, in any ASCII letter case. -/
def ignoresHeader (s : Settings) (name : String) : Bool :=
  s.ignoredHeaders.any fun h => Text.lower h == Text.lower name

end Settings
end SdkSmith
