import SdkSmith.Number.Shortest
import SdkSmith.Table

/-!
JSON values. Whole numbers and floating-point numbers are told apart; an object keeps its members
in order, each key once.
-/
namespace SdkSmith

/-- A whole number of 64 bits, signed or not, or a floating-point number. -/
inductive Json.Number
  | int (n : Int)
  | double (x : Double)
deriving DecidableEq, Repr

/-- A JSON value. -/
inductive Json
  | null
  | bool (b : Bool)
  | number (n : Json.Number)
  | string (s : String)
  | array (items : List Json)
  | object (members : List (String × Json))
deriving Repr

namespace Json

instance : Inhabited Json := ⟨.null⟩

/-- The text of a string. -/
def text? : Json → Option String
  | .string s => some s
  | _ => none

/-- The member of an object at a key. -/
def get? (key : String) : Json → Option Json
  | .object members => Table.find? key members
  | _ => none

/-- Whether a whole number has 64 bits, signed or not. -/
def Number.fits (n : Int) : Bool :=
  -Int.pow 2 63 ≤ n && n < Int.pow 2 64

end Json
end SdkSmith
