import SdkSmith.Json.Value

/-!
The compact text of JSON values: no blanks, and escapes only where a string needs them.
-/
namespace SdkSmith.Json

/-- Floating-point numbers are positional from `0.00001` to below `10 ^ 16`, and otherwise carry a
signed exponent. -/
def doubleLayout : Double.Layout := ⟨-5, 16, true⟩

/-- The text of a number. -/
def Number.render : Number → String
  | .int n => toString n
  | .double x => x.render doubleLayout

/-- One character between the quotes. -/
def escape (c : Char) : List Char :=
  match c with
  | '"' => ['\\', '"']
  | '\\' => ['\\', '\\']
  | '\n' => ['\\', 'n']
  | '\r' => ['\\', 'r']
  | '\t' => ['\\', 't']
  | '\x08' => ['\\', 'b']
  | '\x0c' => ['\\', 'f']
  | c =>
    if c.toNat < 32 then
      ['\\', 'u', '0', '0', Nat.digitChar (c.toNat / 16), Nat.digitChar (c.toNat % 16)]
    else [c]

/-- A string in quotes. -/
def renderString (s : String) : String :=
  String.ofList ('"' :: s.toList.flatMap escape ++ ['"'])

mutual

/-- The compact text of a value. -/
def render : Json → String
  | .null => "null"
  | .bool b => if b then "true" else "false"
  | .number n => n.render
  | .string s => renderString s
  | .array items => "[" ++ ",".intercalate (renderItems items) ++ "]"
  | .object members => "\x7b" ++ ",".intercalate (renderMembers members) ++ "\x7d"

/-- The texts of the values in an array. -/
def renderItems : List Json → List String
  | [] => []
  | v :: vs => render v :: renderItems vs

/-- The texts of the members of an object. -/
def renderMembers : List (String × Json) → List String
  | [] => []
  | (k, v) :: ms => (renderString k ++ ":" ++ render v) :: renderMembers ms

end

end SdkSmith.Json
