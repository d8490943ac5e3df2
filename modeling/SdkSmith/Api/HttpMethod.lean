import SdkSmith.Failure
import SdkSmith.Text.Blank

/-!
The HTTP methods an endpoint may have.
-/
namespace SdkSmith.Api

/-- An HTTP method. -/
inductive HttpMethod
  | get
  | head
  | post
  | put
  | patch
  | delete
  | options
  | connect
  | trace
deriving DecidableEq, Repr

namespace HttpMethod

/-- Every method. -/
def all : List HttpMethod :=
  [.get, .head, .post, .put, .patch, .delete, .options, .connect, .trace]

/-- The word for a method, in upper case. -/
def name : HttpMethod → String
  | .get => "GET"
  | .head => "HEAD"
  | .post => "POST"
  | .put => "PUT"
  | .patch => "PATCH"
  | .delete => "DELETE"
  | .options => "OPTIONS"
  | .connect => "CONNECT"
  | .trace => "TRACE"

/-- Whether a request with this method carries a body. -/
def allowsBody : HttpMethod → Bool
  | .post | .put | .patch | .delete => true
  | _ => false

/-- The method of a word in any letter case, blanks around it aside. -/
def parse (word : String) : Except Failure HttpMethod :=
  let word := Text.upper (Text.trim word)
  match all.find? fun m => m.name == word with
  | some m => .ok m
  | none => .error (.malformed (.unsupportedMethod word))

end HttpMethod
end SdkSmith.Api
