import SdkSmith.Document.Mismatch
import SdkSmith.Url.Fault

/-!
Why a run ends without output. Each failure names the place in the description or the
configuration key at fault; the sentences are made here and nowhere else.
-/
namespace SdkSmith

/-- A text format in which descriptions come. -/
inductive Encoding
  | openApiJson
  | openApiYaml
  | postmanJson
  | harJson
deriving DecidableEq, Repr

/-- What is wrong with a description. -/
inductive Malformation
  | undecodable (encoding : Encoding)
  | noInfo
  | noTitle
  | noPaths
  | collection (mismatch : Document.Mismatch)
  | noCollectionInfo
  | noCollectionName
  | noCollectionItems
  /-- A node of a collection, at its location and with its name if it has one. -/
  | node (location : String) (name : Option String) (mismatch : Document.Mismatch)
  | noLog
  | noEntries
  | invalidUrl (entry : Nat) (url : String) (fault : Url.Fault)
  | unsupportedMethod (word : String)
  | unknownKeyLocation (scheme place : String)
deriving DecidableEq, Repr

/-- What is wrong with a configuration key. -/
inductive SettingFault
  | undecodableJson
  | undecodableToml
  | notAMap
  | mismatch (mismatch : Document.Mismatch)
  | missing
  | empty
  | baseClass (name : String)
  | unknownFormat (word : String) (known : List String)
deriving DecidableEq, Repr

/-- Why a run ends without output. -/
inductive Failure
  | malformed (fault : Malformation)
  /-- An inline body that nothing names, or a nested schema whose name comes out empty. -/
  | unnamedSchema (location : String) (nested : Bool)
  | unresolved (reference location : String)
  | template (template token : String)
  | setting (key : String) (fault : SettingFault)
  | io (path : String)
deriving DecidableEq, Repr

/-- The name of a text format. -/
def Encoding.name : Encoding → String
  | .openApiJson => "OpenAPI JSON"
  | .openApiYaml => "OpenAPI YAML"
  | .postmanJson => "Postman JSON"
  | .harJson => "HAR JSON"

namespace Malformation

/-- Where a description is wrong. -/
def location : Malformation → String
  | .undecodable _ | .collection _ => "<document>"
  | .noInfo | .noCollectionInfo => "info"
  | .noTitle => "info.title"
  | .noPaths => "paths"
  | .noCollectionName => "info.name"
  | .noCollectionItems => "item"
  | .node location _ _ => location
  | .noLog => "log"
  | .noEntries => "log.entries"
  | .invalidUrl entry _ _ => "log.entries[" ++ toString entry ++ "].request.url"
  | .unsupportedMethod _ => "method"
  | .unknownKeyLocation scheme _ => "components.securitySchemes." ++ scheme ++ ".in"

/-- What is wrong there. -/
def reason : Malformation → String
  | .undecodable encoding => "invalid " ++ encoding.name
  | .noInfo => "document has no info object"
  | .noTitle => "document has no title"
  | .noPaths => "document has no paths object"
  | .collection mismatch => mismatch.message
  | .noCollectionInfo => "collection has no info object"
  | .noCollectionName => "collection has no name"
  | .noCollectionItems => "collection has no items"
  | .node _ none mismatch => mismatch.message
  | .node _ (some name) mismatch => "'" ++ name ++ "': " ++ mismatch.message
  | .noLog => "archive has no log object"
  | .noEntries => "archive has no entries"
  | .invalidUrl _ url fault => "invalid URL '" ++ url ++ "': " ++ fault.message
  | .unsupportedMethod word => "unsupported HTTP method '" ++ word ++ "'"
  | .unknownKeyLocation _ place => "unknown api key location '" ++ place ++ "'"

end Malformation

/-- What is wrong with a key. -/
def SettingFault.reason : SettingFault → String
  | .undecodableJson => "invalid JSON"
  | .undecodableToml => "invalid TOML"
  | .notAMap => "configuration must be a map"
  | .mismatch m => m.message
  | .missing => "required key is missing"
  | .empty => "must not be empty"
  | .baseClass name => "'" ++ name ++ "' is the name of a generated base class"
  | .unknownFormat word known =>
    "unknown input type '" ++ word ++ "', expected one of: " ++ ", ".intercalate known

/-- The sentence for a failure. -/
def Failure.message : Failure → String
  | .malformed fault =>
    "malformed specification at '" ++ fault.location ++ "': " ++ fault.reason
  | .unnamedSchema location nested =>
    "cannot name schema at '" ++ location ++ "': " ++
      (if nested then "nested schema name normalizes to nothing"
       else "inline schema has no title and the operation has no operationId or summary")
  | .unresolved reference location =>
    "unresolved reference '" ++ reference ++ "' at '" ++ location ++ "'"
  | .template text token =>
    "template '" ++ text ++ "' has no substitution for '\x7b" ++ token ++ "\x7d'"
  | .setting key fault => "invalid configuration key '" ++ key ++ "': " ++ fault.reason
  | .io path => "I/O error on '" ++ path ++ "'"

end SdkSmith
