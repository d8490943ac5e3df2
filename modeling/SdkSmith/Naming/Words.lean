import SdkSmith.Text.Blank

/-!
Free text as a row of ASCII words. `normalize` folds accents, drops possessive endings, cuts at
every other character and at camel humps, drops the articles in between, and lets no digit lead.
-/
namespace SdkSmith.Naming

/-- An accented Latin letter as ASCII, an apostrophe as itself, and any other character beyond
ASCII as a blank. -/
def foldChar (c : Char) : List Char :=
  if c.toNat < 128 then [c] else
  match c with
  | 'à' | 'á' | 'â' | 'ã' | 'ä' | 'å' | 'ā' | 'ă' | 'ą' => ['a']
  | 'À' | 'Á' | 'Â' | 'Ã' | 'Ä' | 'Å' | 'Ā' | 'Ă' | 'Ą' => ['A']
  | 'æ' => ['a', 'e']
  | 'Æ' => ['A', 'E']
  | 'ç' | 'ć' | 'č' | 'ĉ' | 'ċ' => ['c']
  | 'Ç' | 'Ć' | 'Č' | 'Ĉ' | 'Ċ' => ['C']
  | 'ď' | 'đ' | 'ð' => ['d']
  | 'Ď' | 'Đ' | 'Ð' => ['D']
  | 'è' | 'é' | 'ê' | 'ë' | 'ē' | 'ė' | 'ę' | 'ě' => ['e']
  | 'È' | 'É' | 'Ê' | 'Ë' | 'Ē' | 'Ė' | 'Ę' | 'Ě' => ['E']
  | 'ğ' | 'ģ' | 'ĝ' => ['g']
  | 'Ğ' | 'Ģ' | 'Ĝ' => ['G']
  | 'ì' | 'í' | 'î' | 'ï' | 'ī' | 'į' | 'ı' => ['i']
  | 'Ì' | 'Í' | 'Î' | 'Ï' | 'Ī' | 'Į' | 'İ' => ['I']
  | 'ķ' => ['k']
  | 'Ķ' => ['K']
  | 'ł' | 'ľ' | 'ļ' | 'ĺ' => ['l']
  | 'Ł' | 'Ľ' | 'Ļ' | 'Ĺ' => ['L']
  | 'ñ' | 'ń' | 'ň' | 'ņ' => ['n']
  | 'Ñ' | 'Ń' | 'Ň' | 'Ņ' => ['N']
  | 'ò' | 'ó' | 'ô' | 'õ' | 'ö' | 'ø' | 'ō' | 'ő' => ['o']
  | 'Ò' | 'Ó' | 'Ô' | 'Õ' | 'Ö' | 'Ø' | 'Ō' | 'Ő' => ['O']
  | 'œ' => ['o', 'e']
  | 'Œ' => ['O', 'E']
  | 'ŕ' | 'ř' => ['r']
  | 'Ŕ' | 'Ř' => ['R']
  | 'ś' | 'š' | 'ş' | 'ș' => ['s']
  | 'Ś' | 'Š' | 'Ş' | 'Ș' => ['S']
  | 'ß' => ['s', 's']
  | 'ť' | 'ţ' | 'ț' => ['t']
  | 'Ť' | 'Ţ' | 'Ț' => ['T']
  | 'þ' => ['t', 'h']
  | 'Þ' => ['T', 'H']
  | 'ù' | 'ú' | 'û' | 'ü' | 'ū' | 'ů' | 'ű' | 'ų' => ['u']
  | 'Ù' | 'Ú' | 'Û' | 'Ü' | 'Ū' | 'Ů' | 'Ű' | 'Ų' => ['U']
  | 'ý' | 'ÿ' => ['y']
  | 'Ý' | 'Ÿ' => ['Y']
  | 'ž' | 'ź' | 'ż' => ['z']
  | 'Ž' | 'Ź' | 'Ż' => ['Z']
  | '’' => ['\'']
  | _ => [' ']

/-- A text in ASCII. -/
def fold (s : List Char) : List Char :=
  s.flatMap foldChar

/-- Drops an apostrophe and the `s` after it where that ends a word. -/
def stripPossessive : List Char → List Char
  | '\'' :: s :: r =>
    if (s == 's' || s == 'S') && !(r.head?.any Char.isAlphanum) then stripPossessive r
    else '\'' :: stripPossessive (s :: r)
  | c :: r => c :: stripPossessive r
  | [] => []

/-- Whether a word begins at `cur`: an upper-case letter after a lower-case letter or a digit, or
the last of several, where a lower-case letter follows. -/
def beginsWord (prev cur : Char) (next : Option Char) : Bool :=
  cur.isUpper && (prev.isLower || prev.isDigit || (prev.isUpper && next.any Char.isLower))

/-- The camel humps of `prev :: rest`. -/
def humpsFrom (prev : Char) : List Char → List (List Char)
  | [] => [[prev]]
  | cur :: rest =>
    if beginsWord prev cur rest.head? then [prev] :: humpsFrom cur rest
    else match humpsFrom cur rest with
      | [] => [[prev]]
      | w :: ws => (prev :: w) :: ws

/-- A word cut at its camel humps. -/
def humps : List Char → List (List Char)
  | [] => []
  | c :: r => humpsFrom c r

/-- The articles, which carry no meaning between two other words. -/
def isFiller (w : List Char) : Bool :=
  w == ['a'] || w == ['a', 'n']

/-- Drops the fillers before the last word. -/
def dropFillersBeforeLast : List (List Char) → List (List Char)
  | [] => []
  | [w] => [w]
  | w :: v :: r =>
    if isFiller w then dropFillersBeforeLast (v :: r) else w :: dropFillersBeforeLast (v :: r)

/-- Drops the fillers between the first and the last word. -/
def dropFillers : List (List Char) → List (List Char)
  | [] => []
  | w :: r => w :: dropFillersBeforeLast r

/-- The runs of ASCII letters and digits. -/
def alnumRuns (s : List Char) : List (List Char) :=
  (Text.pieces (fun c => !c.isAlphanum) s).filter fun w => !w.isEmpty

/-- The words of a text, before the rule about leading digits. -/
def wordsOf (s : List Char) : List (List Char) :=
  dropFillers ((alnumRuns (stripPossessive (fold s))).flatMap humps)

/-- Words with one blank between them. -/
def joinWords (ws : List (List Char)) : List Char :=
  [' '].intercalate ws

/-- A text as ASCII words, on characters. -/
def normalizeChars (s : List Char) : List Char :=
  (joinWords (wordsOf s)).dropWhile fun c => c.isDigit || c == ' '

/-- A text as ASCII words with one blank between them. -/
def normalize (s : String) : String :=
  String.ofList (normalizeChars s.toList)

end SdkSmith.Naming
