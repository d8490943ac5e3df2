import SdkSmith.Failure
import SdkSmith.Php.Expr

/-!
URL templates. A token is the text from the leftmost `{` to the first `}` after it; a `{` that none
closes is text. Each token is replaced by a property of the object.
-/
namespace SdkSmith.Client.Template

/-- A stretch of a template. -/
inductive Piece
  | text (s : List Char)
  | token (name : List Char)
deriving DecidableEq, Repr

/-- Puts a character before pieces. -/
def before (c : Char) : List Piece → List Piece
  | .text s :: ps => .text (c :: s) :: ps
  | ps => .text [c] :: ps

/-- The pieces of a template from its start, or from within a token, whose characters so far are
held in reverse. -/
def scanFrom : Option (List Char) → List Char → List Piece
  | none, [] => []
  | none, c :: r => if c = '\x7b' then scanFrom (some []) r else before c (scanFrom none r)
  | some t, [] => [.text ('\x7b' :: t.reverse)]
  | some t, c :: r =>
    if c = '\x7d' then .token t.reverse :: scanFrom none r else scanFrom (some (c :: t)) r

/-- The pieces of a template. -/
def scan (template : String) : List Piece :=
  scanFrom none template.toList

/-- The parts that pieces become, or the first token without a member. -/
def parts (members : List (String × String)) : List Piece → Except String (List Php.Part)
  | [] => .ok []
  | .text s :: ps => (parts members ps).map (.literal (String.ofList s) :: ·)
  | .token t :: ps =>
    let name := String.ofList t
    match members.lookup name with
    | none => .error name
    | some property => (parts members ps).map (.property name property :: ·)

/-- A text for a template without tokens, otherwise an interpolated one. -/
def exprOf : List Php.Part → Php.Expr
  | [] => .string ""
  | [.literal s] => .string s
  | ps => .interpolated ps

/-- The expression for a template, in which `members` gives the property of each token. -/
def render (template : String) (members : List (String × String)) : Except Failure Php.Expr :=
  match parts members (scan template) with
  | .ok ps => .ok (exprOf ps)
  | .error token => .error (.template template token)

end SdkSmith.Client.Template
