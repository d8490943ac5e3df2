import SdkSmith.Json.Reader
import SdkSmith.OpenApi.Reading
import SdkSmith.Yaml.Reader

/-!
The text of an OpenAPI document: JSON where it begins with a brace, otherwise YAML.
-/
namespace SdkSmith.OpenApi

/-- The document that a text is. -/
def Document.parse (source : String) : Except Failure Document :=
  let isJson := (source.toList.dropWhile Text.isBlank).head? == some '\x7b'
  let (datum?, encoding) :=
    if isJson then (Json.read? source, Encoding.openApiJson)
    else (Yaml.read? source, Encoding.openApiYaml)
  match datum?.map Read.document with
  | some (.ok d) => .ok d
  | _ => .error (.malformed (.undecodable encoding))

end SdkSmith.OpenApi
