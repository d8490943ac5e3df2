import SdkSmith.Format
import SdkSmith.Har.Description
import SdkSmith.OpenApi.Description
import SdkSmith.OpenApi.Source
import SdkSmith.Postman.Description

/-!
A text in one of the formats of descriptions. The URLs in a capture are read by a reader that is
given.
-/
namespace SdkSmith

/-- The text of a description, and its format. -/
structure Source where
  format : Format
  text : String
deriving DecidableEq, Repr

/-- The description that a text gives. -/
def Source.describe (s : Source) (read : Url.Reader) : Except Failure Api.Description :=
  match s.format with
  | .openApi => (OpenApi.Document.parse s.text).bind OpenApi.Document.describe
  | .postman => (Postman.decode s.text).bind Postman.describe
  | .har => (Har.decode s.text).bind (·.describe read Har.defaultMarker)

end SdkSmith
