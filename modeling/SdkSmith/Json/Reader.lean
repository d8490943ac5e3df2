import SdkSmith.Document.Datum

/-!
JSON text as a document. The text is checked in full; what it spells without denoting a value (half
of a surrogate pair, a number beyond the greatest, a nesting beyond the limit) is unreadable, which
matters only where it is asked for.
-/
namespace SdkSmith.Json.Reader
open SdkSmith.Document

/-- How deep arrays and objects may be nested. -/
def depthLimit : Nat := 127

/-- The blanks between tokens. -/
def isSpace (c : Char) : Bool :=
  c == ' ' || c == '\n' || c == '\r' || c == '\t'

/-- The text after leading blanks. -/
def skipSpace (s : List Char) : List Char :=
  s.dropWhile isSpace

/-- The value of a hexadecimal digit. -/
def hexDigit? (c : Char) : Option Nat :=
  if c.isDigit then some (c.toNat - '0'.toNat)
  else if 'a' ≤ c && c ≤ 'f' then some (c.toNat - 'a'.toNat + 10)
  else if 'A' ≤ c && c ≤ 'F' then some (c.toNat - 'A'.toNat + 10)
  else none

/-- Four hexadecimal digits. -/
def hex4? : List Char → Option (Nat × List Char)
  | a :: b :: c :: d :: r =>
    match hexDigit? a, hexDigit? b, hexDigit? c, hexDigit? d with
    | some a, some b, some c, some d => some (((a * 16 + b) * 16 + c) * 16 + d, r)
    | _, _, _, _ => none
  | _ => none

/-- What one code unit after `\u`, or two, stand for; a half pair stands for nothing. -/
def unit (n : Nat) (r : List Char) : Option Char × List Char :=
  if n < 0xD800 || 0xDFFF < n then (some (Char.ofNat n), r)
  else if 0xDC00 ≤ n then (none, r)
  else match r with
    | '\\' :: 'u' :: s =>
      match hex4? s with
      | some (m, s) =>
        if 0xDC00 ≤ m && m ≤ 0xDFFF then
          (some (Char.ofNat (0x10000 + (n - 0xD800) * 0x400 + (m - 0xDC00))), s)
        else (none, r)
      | none => (none, r)
    | _ => (none, r)

/-- The rest of a string with its text, if it has one, after `acc` in reverse. -/
def stringRest (fuel : Nat) (acc : Option (List Char)) (s : List Char) :
    Option (Option String × List Char) :=
  match fuel, s with
  | 0, _ => none
  | _, [] => none
  | _, '"' :: r => some (acc.map fun cs => String.ofList cs.reverse, r)
  | fuel + 1, '\\' :: c :: r =>
    let push (d : Char) := stringRest fuel (acc.map (d :: ·)) r
    match c with
    | '"' => push '"'
    | '\\' => push '\\'
    | '/' => push '/'
    | 'b' => push '\x08'
    | 'f' => push '\x0c'
    | 'n' => push '\n'
    | 'r' => push '\r'
    | 't' => push '\t'
    | 'u' =>
      match hex4? r with
      | none => none
      | some (n, r) =>
        let (d?, r) := unit n r
        stringRest fuel (match d?, acc with
          | some d, some cs => some (d :: cs)
          | _, _ => none) r
    | _ => none
  | fuel + 1, c :: r =>
    if c.toNat < 32 then none else stringRest fuel (acc.map (c :: ·)) r

/-- A string after its opening quote. -/
def string? (s : List Char) : Option (Option String × List Char) :=
  stringRest (s.length + 1) (some []) s

/-- The value of decimal digits. -/
def natOf (ds : List Char) : Nat :=
  ds.foldl (fun n d => n * 10 + (d.toNat - '0'.toNat)) 0

/-- Whether a natural number has 64 bits. -/
def isWord (n : Nat) : Bool :=
  n < Nat.pow 2 64

/-- The longest run of leading digits whose value, appended to `n`, has 64 bits, with that value
and the digits left over. -/
def leadingWord (n : Nat) : List Char → Nat × List Char
  | [] => (n, [])
  | d :: ds =>
    let m := n * 10 + (d.toNat - '0'.toNat)
    if isWord m then leadingWord m ds else (n, d :: ds)

/-- A word scaled by a power of ten: rounded, then multiplied or divided by the rounded power. Far
below one the power is divided out in steps of `10 ^ 308`. -/
def scaled? (negative : Bool) (word : Nat) (scale : Int) : Option Double :=
  if word = 0 then some (.zero negative)
  else if 308 < scale then none
  else if scale < -1000 then some (.zero negative)
  else do
    let x ← Double.ofNat? negative word
    if 0 ≤ scale then
      x.mul? (← Double.ofDecimal? false 1 scale)
    else if -308 ≤ scale then
      x.div? (← Double.ofDecimal? false 1 (-scale))
    else
      let y ← x.div? (← Double.ofDecimal? false 1 308)
      if y.mantissa = 0 then return y
      if -616 ≤ scale then y.div? (← Double.ofDecimal? false 1 (-(scale + 308)))
      else return .zero negative

/-- The number with a whole part, a fraction and an exponent. Digits beyond the first 64 bits of
the whole part count as zeros; those of the fraction are left out. -/
def double? (negative : Bool) (whole fraction : List Char) (exponent : Int) : Option Double :=
  let (w, wholeRest) := leadingWord 0 whole
  let (v, fractionRest) := leadingWord w fraction
  scaled? negative v (wholeRest.length - (fraction.length - fractionRest.length : Nat) + exponent)

/-- The number that digits denote, if any. -/
def number? (negative : Bool) (whole : List Char) (fraction : Option (List Char))
    (exponent : Option Int) : Option Number :=
  match fraction, exponent with
  | none, none =>
    let n : Int := if negative then -(natOf whole : Int) else natOf whole
    if Number.fits n && !(negative && n == 0) then some (.int n)
    else (double? negative whole [] 0).map .double
  | _, _ => (double? negative whole (fraction.getD []) (exponent.getD 0)).map .double

/-- One digit or more. -/
def digits? (s : List Char) : Option (List Char × List Char) :=
  match s.takeWhile Char.isDigit with
  | [] => none
  | ds => some (ds, s.dropWhile Char.isDigit)

/-- The exponent after its `e`. -/
def exponent? (s : List Char) : Option (Int × List Char) :=
  match s with
  | '-' :: r => (digits? r).map fun (ds, r) => (-(natOf ds : Int), r)
  | '+' :: r => (digits? r).map fun (ds, r) => ((natOf ds : Int), r)
  | r => (digits? r).map fun (ds, r) => ((natOf ds : Int), r)

/-- The digits before the point: a zero, or digits that do not begin with one. -/
def whole? : List Char → Option (List Char × List Char)
  | '0' :: r => if r.head?.any Char.isDigit then none else some (['0'], r)
  | s => digits? s

/-- A number, its sign read already. -/
def unsigned? (negative : Bool) (s : List Char) : Option (Option Number × List Char) := do
  let (whole, s) ← whole? s
  let (fraction, s) ← match s with
    | '.' :: r => (digits? r).map fun (ds, r) => (some ds, r)
    | _ => some (none, s)
  let (exponent, s) ← match s with
    | 'e' :: r => (exponent? r).map fun (e, r) => (some e, r)
    | 'E' :: r => (exponent? r).map fun (e, r) => (some e, r)
    | _ => some (none, s)
  return (number? negative whole fraction exponent, s)

/-- A leaf with a value, or an unreadable one. -/
def leaf : Option Json → Datum
  | some v => .scalar (Scalar.ofJson v)
  | none => .unreadable

/-- A key with a text, or an unreadable one. -/
def key (s : Option String) : Scalar :=
  match s with
  | some s => Scalar.ofJson (.string s)
  | none => ⟨none, false, none, none, false⟩

mutual

/-- One value at a depth of nesting. -/
def value? (fuel depth : Nat) (s : List Char) : Option (Datum × List Char) :=
  match fuel with
  | 0 => none
  | fuel + 1 =>
    match skipSpace s with
    | 'n' :: 'u' :: 'l' :: 'l' :: r => some (leaf (some .null), r)
    | 't' :: 'r' :: 'u' :: 'e' :: r => some (leaf (some (.bool true)), r)
    | 'f' :: 'a' :: 'l' :: 's' :: 'e' :: r => some (leaf (some (.bool false)), r)
    | '"' :: r => (string? r).map fun (t, r) => (leaf (t.map .string), r)
    | '-' :: r => (unsigned? true r).map fun (n, r) => (leaf (n.map .number), r)
    | '[' :: r =>
      match skipSpace r with
      | ']' :: r => some (nested depth (.list [] true), r)
      | _ => (items? fuel (depth + 1) r).map fun (ds, r) => (nested depth (.list ds true), r)
    | '\x7b' :: r =>
      match skipSpace r with
      | '\x7d' :: r => some (nested depth (.record [] true), r)
      | _ => (members? fuel (depth + 1) r).map fun (ms, r) => (nested depth (.record ms true), r)
    | r => (unsigned? false r).map fun (n, r) => (leaf (n.map .number), r)

/-- The items of an array up to its end. -/
def items? (fuel depth : Nat) (s : List Char) : Option (List Datum × List Char) :=
  match fuel with
  | 0 => none
  | fuel + 1 =>
    match value? fuel depth s with
    | none => none
    | some (d, r) =>
      match skipSpace r with
      | ',' :: r => (items? fuel depth r).map fun (ds, r) => (d :: ds, r)
      | ']' :: r => some ([d], r)
      | _ => none

/-- The members of an object up to its end. -/
def members? (fuel depth : Nat) (s : List Char) : Option (List (Scalar × Datum) × List Char) :=
  match fuel with
  | 0 => none
  | fuel + 1 =>
    match skipSpace s with
    | '"' :: r =>
      match string? r with
      | none => none
      | some (k, r) =>
        match skipSpace r with
        | ':' :: r =>
          match value? fuel depth r with
          | none => none
          | some (d, r) =>
            match skipSpace r with
            | ',' :: r => (members? fuel depth r).map fun (ms, r) => ((key k, d) :: ms, r)
            | '\x7d' :: r => some ([(key k, d)], r)
            | _ => none
        | _ => none
    | _ => none

/-- An array or object, unless it is nested too deeply. -/
def nested (depth : Nat) (d : Datum) : Datum :=
  if depth < depthLimit then d else .unreadable

end

end SdkSmith.Json.Reader

namespace SdkSmith.Json

/-- The document in a JSON text. -/
def read? (source : String) : Option Document.Datum :=
  let s := source.toList
  match Reader.value? (2 * s.length + 2) 0 s with
  | some (d, r) => if (Reader.skipSpace r).isEmpty then some d else none
  | none => none

/-- The value of a JSON text, if all of it has one. -/
def parse? (source : String) : Option Json :=
  (read? source).bind Document.Datum.value?

end SdkSmith.Json
