/-!
UTF-8: the bytes of a text, and the text of bytes, in which whatever is not UTF-8 becomes the
replacement character.
-/
namespace SdkSmith.Text

/-- The bytes of a character. -/
def bytesOf (c : Char) : List Nat :=
  let n := c.toNat
  if n < 0x80 then [n]
  else if n < 0x800 then [0xC0 + n / 0x40, 0x80 + n % 0x40]
  else if n < 0x10000 then [0xE0 + n / 0x1000, 0x80 + n / 0x40 % 0x40, 0x80 + n % 0x40]
  else [0xF0 + n / 0x40000, 0x80 + n / 0x1000 % 0x40, 0x80 + n / 0x40 % 0x40, 0x80 + n % 0x40]

/-- The bytes of a text. -/
def utf8 (s : List Char) : List Nat :=
  s.flatMap bytesOf

/-- A character of which some bytes have been seen. -/
structure Sequence where
  /-- The bytes still to come. -/
  missing : Nat
  code : Nat
  /-- The bounds of the next byte, which keep out needlessly long forms and surrogates. -/
  least : Nat
  greatest : Nat
deriving Repr

/-- The character that a byte begins, if it is not one by itself. -/
def Sequence.ofLead? (b : Nat) : Option Sequence :=
  if 0xC2 ≤ b && b < 0xE0 then some ⟨1, b - 0xC0, 0x80, 0xBF⟩
  else if 0xE0 ≤ b && b < 0xF0 then
    some ⟨2, b - 0xE0, if b = 0xE0 then 0xA0 else 0x80, if b = 0xED then 0x9F else 0xBF⟩
  else if 0xF0 ≤ b && b < 0xF5 then
    some ⟨3, b - 0xF0, if b = 0xF0 then 0x90 else 0x80, if b = 0xF4 then 0x8F else 0xBF⟩
  else none

/-- The character that stands for bytes that make none. -/
def replacement : Char := '\ufffd'

/-- The text of bytes, after part of a character. -/
def ofUtf8From : Option Sequence → List Nat → List Char
  | none, [] => []
  | some _, [] => [replacement]
  | q, b :: bs =>
    match q with
    | none => lead b bs
    | some q =>
      if q.least ≤ b && b ≤ q.greatest then
        let code := q.code * 0x40 + b % 0x40
        if q.missing ≤ 1 then Char.ofNat code :: ofUtf8From none bs
        else ofUtf8From (some ⟨q.missing - 1, code, 0x80, 0xBF⟩) bs
      else replacement :: lead b bs
where
  lead (b : Nat) (bs : List Nat) : List Char :=
    if b < 0x80 then Char.ofNat b :: ofUtf8From none bs
    else match Sequence.ofLead? b with
      | some q => ofUtf8From (some q) bs
      | none => replacement :: ofUtf8From none bs

/-- The text of bytes. -/
def ofUtf8 (bs : List Nat) : List Char :=
  ofUtf8From none bs

end SdkSmith.Text
