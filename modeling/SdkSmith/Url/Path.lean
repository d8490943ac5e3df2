import SdkSmith.Text.Blank
import SdkSmith.Text.Utf8

/-!
The path of a URL: percent escapes for what may not stand in it, and dot segments resolved.
-/
namespace SdkSmith.Url

/-- A byte as a percent escape. -/
def percentByte (b : Nat) : List Char :=
  let digit (n : Nat) : Char := Char.toUpper (Nat.digitChar n)
  ['%', digit (b / 16), digit (b % 16)]

/-- Whether a character is a control or beyond ASCII. -/
def isControl (c : Char) : Bool :=
  c < ' ' || '~' < c

/-- Whether a character may not stand in a path. -/
def isUnsafe (c : Char) : Bool :=
  isControl c || [' ', '"', '<', '>', '\x60', '#', '?', '\x7b', '\x7d'].contains c

/-- A text in which characters of a class are escaped. -/
def escape (p : Char → Bool) (s : List Char) : List Char :=
  s.flatMap fun c => if p c then (Text.bytesOf c).flatMap percentByte else [c]

/-- A dot, perhaps escaped, at the front, and what follows it. -/
def dropDot? : List Char → Option (List Char)
  | '.' :: r => some r
  | '%' :: '2' :: 'e' :: r | '%' :: '2' :: 'E' :: r => some r
  | _ => none

/-- Whether a segment stands for the directory itself. -/
def isHere (s : List Char) : Bool :=
  dropDot? s == some []

/-- Whether a segment stands for the directory above. -/
def isAbove (s : List Char) : Bool :=
  (dropDot? s).bind dropDot? == some []

/-- Whether a segment is the name of a drive. -/
def isDrive : List Char → Bool
  | [c, d] => c.isAlpha && (d == ':' || d == '|')
  | _ => false

/-- The directories without the last one, unless that is a drive. -/
def leave (up : List (List Char)) : List (List Char) :=
  match up with
  | s :: rest => if isDrive s then s :: rest else rest
  | [] => []

/-- A segment of the path of a file, where the first one may name a drive. -/
def fileSegment (isFirst : Bool) (s : List Char) : List Char :=
  if isDrive s then [s.headD 'a', ':']
  else if isFirst && isDrive (s.take 2) && s[1]? == some ':' then s.take 2 ++ '/' :: s.drop 2
  else s

/-- The path of segments, inside of directories from the innermost out. -/
def resolve (isFile : Bool) : List (List Char) → List (List Char) → List Char
  | up, [] => directory up
  | up, [s] =>
    if isAbove s then directory (leave up)
    else if isHere s then directory up
    else directory up ++ segment up s
  | up, s :: rest =>
    if isAbove s then resolve isFile (leave up) rest
    else if isHere s then resolve isFile up rest
    else resolve isFile (segment up s :: up) rest
where
  directory (up : List (List Char)) : List Char :=
    '/' :: up.reverse.flatMap fun s => s ++ ['/']
  segment (up : List (List Char)) (s : List Char) : List Char :=
    let s := escape isUnsafe s
    if isFile then fileSegment up.isEmpty s else s

/-- The path that a text without query and fragment is; a leading slash adds nothing. -/
def pathOf (isSpecial isFile : Bool) (s : List Char) : List Char :=
  let isSlash (c : Char) : Bool := c == '/' || (isSpecial && c == '\\')
  let s := match s with
    | c :: r => if isSlash c then r else c :: r
    | [] => []
  let path := resolve isFile [] (Text.pieces isSlash s)
  if isFile then '/' :: path.dropWhile (· == '/') else path

end SdkSmith.Url
