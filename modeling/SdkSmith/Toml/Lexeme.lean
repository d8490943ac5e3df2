import SdkSmith.Json.Reader

/-!
The scalars of TOML: strings in four kinds of quotes, numbers, and dates with times. A reader takes
characters from the front of the text and leaves the rest.
-/
namespace SdkSmith.Toml

/-- Blanks within a line. -/
def isSpace (c : Char) : Bool :=
  c == ' ' || c == '\t'

/-- The text after leading blanks of its line. -/
def skipSpace (s : List Char) : List Char :=
  s.dropWhile isSpace

/-- The text after a line end. -/
def newline? : List Char → Option (List Char)
  | '\n' :: r => some r
  | '\r' :: '\n' :: r => some r
  | _ => none

/-- Whether a character may stand in a comment or a literal string. -/
def isPrintable (c : Char) : Bool :=
  c == '\t' || (32 ≤ c.toNat && c.toNat != 127)

/-- The text after a comment, if there is one, or nothing where the comment holds a control. -/
def skipComment? (s : List Char) : Option (List Char) :=
  match s with
  | '#' :: r =>
    let rest := r.dropWhile isPrintable
    if rest.isEmpty || (newline? rest).isSome then some rest else none
  | _ => some s

/-- The text after blanks, comments and line ends. -/
def skipLines? : Nat → List Char → Option (List Char)
  | 0, _ => none
  | fuel + 1, s => do
    let s ← skipComment? (skipSpace s)
    match newline? s with
    | some r => skipLines? fuel r
    | none => return s

/-- Hexadecimal digits, `n` of them, as a character. -/
def escaped? (n : Nat) (s : List Char) : Option (Char × List Char) := do
  let ds ← (s.take n).mapM Json.Reader.hexDigit?
  if ds.length ≠ n then none
  let code := ds.foldl (fun a d => a * 16 + d) 0
  if code < 0xD800 || (0xDFFF < code && code < 0x110000) then
    return (Char.ofNat code, s.drop n)
  none

/-- The character after a backslash. -/
def escape? : List Char → Option (Char × List Char)
  | '"' :: r => some ('"', r)
  | '\\' :: r => some ('\\', r)
  | 'b' :: r => some ('\x08', r)
  | 'f' :: r => some ('\x0c', r)
  | 'n' :: r => some ('\n', r)
  | 'r' :: r => some ('\r', r)
  | 't' :: r => some ('\t', r)
  | 'u' :: r => escaped? 4 r
  | 'U' :: r => escaped? 8 r
  | _ => none

/-- A string with escapes on one line, after its opening quote. -/
def basic? : Nat → List Char → Option (List Char × List Char)
  | 0, _ => none
  | _ + 1, [] => none
  | _ + 1, '"' :: r => some ([], r)
  | fuel + 1, '\\' :: r => do
    let (c, r) ← escape? r
    let (cs, r) ← basic? fuel r
    return (c :: cs, r)
  | fuel + 1, c :: r => do
    if !isPrintable c then none
    let (cs, r) ← basic? fuel r
    return (c :: cs, r)

/-- A string without escapes on one line, after its opening quote. -/
def literal? : List Char → Option (List Char × List Char)
  | [] => none
  | '\'' :: r => some ([], r)
  | c :: r => do
    if !isPrintable c then none
    let (cs, r) ← literal? r
    return (c :: cs, r)

/-- The quotes that end a string of several lines; up to two of five belong to the text. -/
def closing? (q : Char) (s : List Char) : Option (List Char × List Char) :=
  let run := s.takeWhile (· == q)
  if run.length < 3 then none
  else
    let n := min run.length 5
    some (List.replicate (n - 3) q, s.drop n)

/-- What follows a backslash at a line's end, if it is one: the text after all blanks and line
ends. -/
def continued? (s : List Char) : Option (List Char) :=
  match newline? (skipSpace s) with
  | some r => some (dropBlank r.length r)
  | none => none
where
  dropBlank : Nat → List Char → List Char
    | 0, s => s
    | fuel + 1, s =>
      match newline? (skipSpace s) with
      | some r => dropBlank fuel r
      | none => skipSpace s

/-- A string with escapes on several lines, after its opening quotes. -/
def basicLines? : Nat → List Char → Option (List Char × List Char)
  | 0, _ => none
  | _ + 1, [] => none
  | fuel + 1, '\\' :: r =>
    match continued? r with
    | some r => basicLines? fuel r
    | none => do
      let (c, r) ← escape? r
      let (cs, r) ← basicLines? fuel r
      return (c :: cs, r)
  | fuel + 1, c :: r =>
    match closing? '"' (c :: r) with
    | some ending => some ending
    | none =>
      match newline? (c :: r) with
      | some r => (basicLines? fuel r).map fun (cs, r) => ('\n' :: cs, r)
      | none =>
        if isPrintable c then (basicLines? fuel r).map fun (cs, r) => (c :: cs, r) else none

/-- A string without escapes on several lines, after its opening quotes. -/
def literalLines? : Nat → List Char → Option (List Char × List Char)
  | 0, _ => none
  | _ + 1, [] => none
  | fuel + 1, c :: r =>
    match closing? '\'' (c :: r) with
    | some ending => some ending
    | none =>
      match newline? (c :: r) with
      | some r => (literalLines? fuel r).map fun (cs, r) => ('\n' :: cs, r)
      | none =>
        if isPrintable c then (literalLines? fuel r).map fun (cs, r) => (c :: cs, r) else none

/-- The text after one line end, if there is one. -/
def dropNewline (s : List Char) : List Char :=
  (newline? s).getD s

/-- A string in any quotes. -/
def string? (s : List Char) : Option (String × List Char) :=
  let fuel := s.length + 1
  let chars := match s with
    | '"' :: '"' :: '"' :: r => basicLines? fuel (dropNewline r)
    | '\'' :: '\'' :: '\'' :: r => literalLines? fuel (dropNewline r)
    | '"' :: r => basic? fuel r
    | '\'' :: r => literal? r
    | _ => none
  chars.map fun (cs, r) => (String.ofList cs, r)

/-- Digits of a base with single underscores between them. -/
def digits? (base : Nat) (s : List Char) : Option Nat :=
  go 0 false s
where
  go (n : Nat) (after : Bool) : List Char → Option Nat
    | [] => if after then some n else none
    | '_' :: r => if after then go n false r else none
    | c :: r =>
      match Json.Reader.hexDigit? c with
      | some d => if d < base then go (n * base + d) true r else none
      | none => none

/-- A whole number of 64 bits with a sign. -/
def signed? (n : Int) : Option Json :=
  if -Int.pow 2 63 ≤ n && n < Int.pow 2 63 then some (.number (.int n)) else none

/-- Decimal digits that do not begin with a zero, or a zero alone. -/
def decimal? (s : List Char) : Option Nat :=
  match s with
  | '0' :: _ :: _ => none
  | _ => digits? 10 s

/-- Without underscores. -/
def bare (s : List Char) : List Char :=
  s.filter (· != '_')

/-- A floating-point number without its sign: a whole part with a fraction, an exponent or both. -/
def float? (negative : Bool) (s : List Char) : Option Json := do
  let isMark (c : Char) : Bool := c == '.' || c == 'e' || c == 'E'
  let whole := s.takeWhile fun c => !isMark c
  let _ ← decimal? whole
  let (fraction, rest) ← match s.drop whole.length with
    | '.' :: r =>
      let ds := r.takeWhile fun c => !isMark c
      (digits? 10 ds).map fun _ => (bare ds, r.drop ds.length)
    | r => some ([], r)
  let exponent ← match rest with
    | [] => some 0
    | e :: r =>
      if e == '.' then none else
      match r with
      | '-' :: ds => (digits? 10 ds).map fun n => -(n : Int)
      | '+' :: ds => (digits? 10 ds).map fun n => (n : Int)
      | ds => (digits? 10 ds).map fun n => (n : Int)
  let value := Json.Reader.natOf (bare whole ++ fraction)
  match Double.ofDecimal? negative value (exponent - fraction.length) with
  | some x => return .number (.double x)
  | none => if negative then return .null else none

/-- A number without its sign. -/
def unsigned? (sign : Option Bool) (s : List Char) : Option Json :=
  let negative := sign.getD false
  match sign, s with
  | none, '0' :: 'x' :: ds => (digits? 16 ds).bind fun n => signed? n
  | none, '0' :: 'o' :: ds => (digits? 8 ds).bind fun n => signed? n
  | none, '0' :: 'b' :: ds => (digits? 2 ds).bind fun n => signed? n
  | _, ['i', 'n', 'f'] => some .null
  | _, ['n', 'a', 'n'] => some .null
  | _, _ =>
    match decimal? s with
    | some n => signed? (if negative then -(n : Int) else n)
    | none => float? negative s

/-- A number. -/
def number? (s : List Char) : Option Json :=
  match s with
  | '-' :: r => unsigned? (some true) r
  | '+' :: r => unsigned? (some false) r
  | _ => unsigned? none s

/-- Two digits up to a bound. -/
def two? (low high : Nat) : List Char → Option (Nat × List Char)
  | a :: b :: r =>
    if a.isDigit && b.isDigit then
      let n := Json.Reader.natOf [a, b]
      if low ≤ n && n ≤ high then some (n, r) else none
    else none
  | _ => none

/-- The number of days of a month. -/
def daysIn (year month : Nat) : Nat :=
  if month = 2 then
    if year % 4 = 0 && (year % 100 ≠ 0 || year % 400 = 0) then 29 else 28
  else if [4, 6, 9, 11].contains month then 30 else 31

/-- A date as it is written. -/
def date? (s : List Char) : Option (List Char × List Char) := do
  let year := s.take 4
  if year.length ≠ 4 || !year.all Char.isDigit then none
  match s.drop 4 with
  | '-' :: r =>
    let (month, r) ← two? 1 12 r
    match r with
    | '-' :: r =>
      let (_, r) ← two? 1 (daysIn (Json.Reader.natOf year) month) r
      return (s.take 10, r)
    | _ => none
  | _ => none

/-- The digits of a fraction of a second, to nine places, without zeros at the end. -/
def fraction (ds : List Char) : List Char :=
  match dropZeros (ds.take 9) with
  | [] => []
  | ds => '.' :: ds
where
  dropZeros (ds : List Char) : List Char := (ds.reverse.dropWhile (· == '0')).reverse

/-- A time of day as it is written, its fraction in short form. -/
def time? (s : List Char) : Option (List Char × List Char) := do
  let (_, r) ← two? 0 23 s
  match r with
  | ':' :: r =>
    let (_, r) ← two? 0 59 r
    match r with
    | ':' :: r =>
      let (_, r) ← two? 0 60 r
      match r with
      | '.' :: q =>
        let ds := q.takeWhile Char.isDigit
        if ds.isEmpty then none
        return (s.take 8 ++ fraction ds, q.drop ds.length)
      | _ => return (s.take 8, r)
    | _ => none
  | _ => none

/-- An offset from universal time, if there is one. -/
def offset? (s : List Char) : Option (List Char × List Char) :=
  match s with
  | 'Z' :: r => some (['Z'], r)
  | 'z' :: r => some (['Z'], r)
  | c :: r =>
    if c == '+' || c == '-' then do
      let (h, q) ← two? 0 23 r
      match q with
      | ':' :: q =>
        let (m, q) ← two? 0 59 q
        return ((if h = 0 && m = 0 then '+' else c) :: r.take 5, q)
      | _ => none
    else some ([], s)
  | [] => some ([], [])

/-- A date, a time, or both, in the standard spelling. -/
def dateTime? (s : List Char) : Option (String × List Char) :=
  match date? s with
  | none => (time? s).map fun (t, r) => (String.ofList t, r)
  | some (d, r) =>
    let both := match r with
      | c :: q =>
        if c == 'T' || c == 't' || c == ' ' then do
          let (t, q) ← time? q
          let (o, q) ← offset? q
          return (String.ofList (d ++ 'T' :: t ++ o), q)
        else none
      | [] => none
    match both with
    | some found => some found
    | none => some (String.ofList d, r)

/-- Whether a character may belong to a number or a word. -/
def isWordChar (c : Char) : Bool :=
  c.isAlphanum || c == '+' || c == '-' || c == '_' || c == '.' || c == ':'

/-- A scalar that is no string. -/
def plain? (s : List Char) : Option (Json × List Char) :=
  let word := s.takeWhile isWordChar
  let rest := s.drop word.length
  match word with
  | ['t', 'r', 'u', 'e'] => some (.bool true, rest)
  | ['f', 'a', 'l', 's', 'e'] => some (.bool false, rest)
  | _ =>
    match dateTime? s with
    | some (t, r) => some (.object [("$__toml_private_datetime", .string t)], r)
    | none => (number? word).map fun v => (v, rest)

end SdkSmith.Toml
