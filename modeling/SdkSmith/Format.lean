import SdkSmith.Failure
import SdkSmith.Text.Blank

/-!
The formats in which an API may be described.
-/
namespace SdkSmith

/-- A format of descriptions. -/
inductive Format
  | openApi
  | postman
  | har
deriving DecidableEq, Repr

namespace Format

/-- Every format. -/
def all : List Format := [.openApi, .postman, .har]

/-- The word for a format. -/
def name : Format → String
  | .openApi => "openapi"
  | .postman => "postman"
  | .har => "har"

/-- The format of a word in any letter case, blanks around it aside. -/
def parse (word : String) : Except Failure Format :=
  match all.find? fun f => f.name == Text.lower (Text.trim word) with
  | some f => .ok f
  | none => .error (.setting "type" (.unknownFormat word (all.map name)))

end Format
end SdkSmith
