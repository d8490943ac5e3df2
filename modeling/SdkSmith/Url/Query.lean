import SdkSmith.Text.Blank
import SdkSmith.Text.Utf8

/-!
Query strings as pairs of names and values, the way forms are sent: a plus sign is a space, and a
percent sign with two digits is a byte.
-/
namespace SdkSmith.Url

/-- The value of a hexadecimal digit, given as a byte. -/
def hexValue? (b : Nat) : Option Nat :=
  if 48 ≤ b && b ≤ 57 then some (b - 48)
  else if 65 ≤ b && b ≤ 70 then some (b - 55)
  else if 97 ≤ b && b ≤ 102 then some (b - 87)
  else none

/-- Bytes with percent escapes undone; a percent sign without two digits stays. -/
def percentDecode : List Nat → List Nat
  | 37 :: a :: b :: bs =>
    match hexValue? a, hexValue? b with
    | some h, some l => (h * 16 + l) :: percentDecode bs
    | _, _ => 37 :: percentDecode (a :: b :: bs)
  | b :: bs => b :: percentDecode bs
  | [] => []

/-- The text of a name or value. -/
def formText (s : List Char) : String :=
  let spaced := s.map fun c => if c = '+' then ' ' else c
  String.ofList (Text.ofUtf8 (percentDecode (Text.utf8 spaced)))

/-- The name and the value in a part of a query; without an equals sign all is the name. -/
def formPair (s : List Char) : String × String :=
  match Text.cutAt? ['='] s with
  | some (name, value) => (formText name, formText value)
  | none => (formText s, "")

/-- The pairs of a query. -/
def queryPairs (query : List Char) : List (String × String) :=
  ((Text.pieces (· == '&') query).filter fun s => !s.isEmpty).map formPair

end SdkSmith.Url
