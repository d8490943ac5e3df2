import SdkSmith.Document.Datum
import SdkSmith.Yaml.Node

/-!
What YAML scalars mean. A text field takes the text of any scalar; a free field takes what the core
schema makes of a plain one, unless a tag says otherwise.
-/
namespace SdkSmith.Yaml

/-- Whether a text is a word for null. -/
def isNullWord (s : String) : Bool :=
  ["~", "null", "Null", "NULL"].contains s

/-- The flag that a word stands for. -/
def flagOf? (s : String) : Option Bool :=
  if ["true", "True", "TRUE"].contains s then some true
  else if ["false", "False", "FALSE"].contains s then some false
  else none

/-- The digit of a base. -/
def digitIn? (base : Nat) (c : Char) : Option Nat :=
  (Json.Reader.hexDigit? c).filter (· < base)

/-- The number that digits of a base make. -/
def digits? (base : Nat) (s : List Char) : Option Nat :=
  if s.isEmpty then none
  else (s.mapM (digitIn? base)).map fun ds => ds.foldl (fun n d => n * base + d) 0

/-- The magnitude of a whole number: in a base that a letter after a zero names, or in decimal
digits, of which the first of several is no zero. -/
def magnitude? (s : List Char) : Option Nat :=
  let based := match s with
    | '0' :: 'x' :: r => digits? 16 r
    | '0' :: 'o' :: r => digits? 8 r
    | '0' :: 'b' :: r => digits? 2 r
    | _ => none
  based.or (if 1 < s.length && s.head? == some '0' then none else digits? 10 s)

/-- The whole number that a text is. -/
def integer? (s : List Char) : Option Int :=
  match s with
  | '+' :: r => (magnitude? r).map Int.ofNat
  | '-' :: r => (magnitude? r).map fun n => -Int.ofNat n
  | r => (magnitude? r).map Int.ofNat

/-- Whether a text is of digits with a needless zero in front. -/
def isPadded (s : List Char) : Bool :=
  let s := match s with
    | '+' :: r | '-' :: r => r
    | r => r
  1 < s.length && s.head? == some '0' && s.all Char.isDigit

/-- The digits of a decimal fraction and the number of them after the point. -/
def fraction? (s : List Char) : Option (Nat × Nat) := do
  let whole := s.takeWhile Char.isDigit
  let after ← match s.drop whole.length with
    | [] => some []
    | '.' :: r => some r
    | _ => none
  if !after.all Char.isDigit then none
  let n ← digits? 10 (whole ++ after)
  return (n, after.length)

/-- The power of ten after the letter of an exponent. -/
def power? (s : List Char) : Option Int :=
  match s with
  | '+' :: r => (digits? 10 r).map Int.ofNat
  | '-' :: r => (digits? 10 r).map fun n => -Int.ofNat n
  | r => (digits? 10 r).map Int.ofNat

/-- The number that a decimal fraction with or without exponent is nearest to. -/
def decimal? (isNegative : Bool) (s : List Char) : Option Double := do
  let isExponent (c : Char) : Bool := c == 'e' || c == 'E'
  let front := s.takeWhile fun c => !isExponent c
  let (n, places) ← fraction? front
  let power ← match s.drop front.length with
    | [] => some 0
    | _ :: r => power? r
  Double.ofDecimal? isNegative n (power - places)

/-- The floating-point number that a text is. One that is no number or has no end counts as
null. -/
def float? (s : List Char) : Option Json :=
  let word := String.ofList s
  let endless := [".inf", ".Inf", ".INF", "+.inf", "+.Inf", "+.INF", "-.inf", "-.Inf", "-.INF",
    ".nan", ".NaN", ".NAN"]
  if endless.contains word then some .null
  else match s with
    | '+' :: r => (decimal? false r).map fun x => .number (.double x)
    | '-' :: r => (decimal? true r).map fun x => .number (.double x)
    | r => (decimal? false r).map fun x => .number (.double x)

/-- A whole number as a value, if it fits into 64 bits, signed or not. -/
def ofInteger? (n : Int) : Option Json :=
  if -Int.pow 2 63 ≤ n && n < Int.pow 2 64 then some (.number (.int n)) else none

/-- Whether a whole number fits into 128 bits, signed or not; beyond that it is read as a
floating-point number. -/
def isWide (n : Int) : Bool :=
  -Int.pow 2 127 ≤ n && n < Int.pow 2 128

/-- What the core schema makes of a plain text. -/
def plainValue? (s : String) : Option Json :=
  let cs := s.toList
  if s.isEmpty || isNullWord s then some .null
  else match flagOf? s with
    | some b => some (.bool b)
    | none =>
      match (integer? cs).filter isWide with
      | some n => ofInteger? n
      | none =>
        if isPadded cs then some (.string s)
        else some ((float? cs).getD (.string s))

/-- The tags of the core schema. -/
def coreTag (name : String) : String := "tag:yaml.org,2002:" ++ name

/-- The value of a text with a tag. -/
def taggedValue? (tag s : String) : Option Json :=
  if tag = coreTag "bool" then (flagOf? s).map .bool
  else if tag = coreTag "int" then (integer? s.toList).bind ofInteger?
  else if tag = coreTag "float" then float? s.toList
  else if tag = coreTag "null" then if isNullWord s then some .null else none
  else if tag.startsWith "!" then none
  else some (.string s)

/-- A scalar with its readings. -/
def scalarOf (tag : Option String) (s : String) (isPlain : Bool) : Document.Scalar where
  text? := some s
  isAbsent := isPlain && match tag with
    | none => s.isEmpty || isNullWord s
    | some t => t = coreTag "null" && isNullWord s
  flag? := if isPlain then flagOf? s else none
  value? := match tag with
    | some t => taggedValue? t s
    | none => if isPlain then plainValue? s else some (.string s)
  isHollow := isPlain && s.isEmpty

/-- The scalar of a document without content. -/
def voidScalar : Document.Scalar := ⟨none, true, none, some .null, true⟩

end SdkSmith.Yaml
