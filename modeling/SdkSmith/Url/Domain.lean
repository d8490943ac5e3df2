import SdkSmith.Text.Blank
import SdkSmith.Text.Lower
import SdkSmith.Url.Punycode

/-!
Domain names in ASCII. Letters are in lower case, full-width forms stand for the plain ones, and a
label beyond ASCII is written in Punycode after `xn--`. Other compatibility forms stand for
themselves here, nothing is composed, and no character is refused for being unassigned.
-/
namespace SdkSmith.Url

/-- Characters that no domain name has: controls, blanks, delimiters of URLs, and joiners. -/
def isForbidden (c : Char) : Bool :=
  c ≤ ' ' || c == '\x7f' || c == Char.ofNat 0x200C || c == Char.ofNat 0x200D ||
    ['%', '#', '/', ':', '<', '>', '?', '@', '[', '\\', ']', '^', '|', Char.ofNat 0xFFFD].contains c

/-- Whether a character beyond ASCII stands for a blank. -/
def isWideBlank (c : Char) : Bool :=
  [0xA0, 0x202F, 0x205F, 0x3000].contains c.toNat || (0x2000 ≤ c.toNat && c.toNat ≤ 0x200A)

/-- The characters that a character stands for: none for one that is ignored. -/
def mappedChar (c : Char) : List Char :=
  let n := c.toNat
  if isWideBlank c then [' ']
  else if n = 0x130 then ['i', Char.ofNat 0x307]
  else if n = 0x3002 || n = 0xFF0E || n = 0xFF61 then ['.']
  else if n = 0xAD || n = 0x200B || n = 0x2060 || n = 0xFEFF || (0xFE00 ≤ n && n ≤ 0xFE0F) then []
  else if 0xFF01 ≤ n && n ≤ 0xFF5E then [Char.toLower (Char.ofNat (n - 0xFEE0))]
  else [Text.lowerChar c]

/-- What stands before a label in Punycode. -/
def encodedLead : List Char := ['x', 'n', '-', '-']

/-- Whether all is ASCII. -/
def isAscii (s : List Char) : Bool :=
  s.all fun c => c.toNat < 128

/-- A label in ASCII. One that is already in Punycode has to stand for something beyond ASCII, and
in lower case. -/
def asciiLabel? (label : List Char) : Option (List Char) :=
  if label.any isForbidden then none
  else match Text.dropLead? encodedLead label with
    | none => some (if isAscii label then label else encodedLead ++ Punycode.encode label)
    | some rest =>
      match Punycode.decode? rest with
      | some s =>
        if !isAscii rest || isAscii s || s.any isForbidden || s.flatMap mappedChar != s then none
        else some label
      | none => none

/-- A domain name in ASCII. -/
def asciiDomain? (s : List Char) : Option (List Char) := do
  let labels ← (Text.pieces (· == '.') (s.flatMap mappedChar)).mapM asciiLabel?
  return ['.'].intercalate labels

end SdkSmith.Url
