/-!
White space and the cuts made at it. A text is cut on its list of characters, so each cut is a
recursion on that list.
-/
namespace SdkSmith.Text

/-- The characters with the Unicode property White_Space. -/
def isBlank (c : Char) : Bool :=
  let n := c.toNat
  (9 ≤ n && n ≤ 13) || n == 0x20 || n == 0x85 || n == 0xA0 || n == 0x1680
    || (0x2000 ≤ n && n ≤ 0x200A) || n == 0x2028 || n == 0x2029 || n == 0x202F || n == 0x205F
    || n == 0x3000

/-- Drops the longest run at the end on which `p` holds. -/
def dropEndWhile (p : Char → Bool) (s : List Char) : List Char :=
  (s.reverse.dropWhile p).reverse

/-- Drops the runs at both ends on which `p` holds. -/
def trimWhile (p : Char → Bool) (s : List Char) : List Char :=
  dropEndWhile p (s.dropWhile p)

/-- A text without the blanks at its two ends. -/
def trim (s : String) : String :=
  String.ofList (trimWhile isBlank s.toList)

/-- A text without the runs of `c` at its two ends. -/
def trimOf (c : Char) (s : String) : String :=
  String.ofList (trimWhile (· == c) s.toList)

/-- Nothing but blanks. -/
def onlyBlanks (s : String) : Bool :=
  s.toList.all isBlank

/-- Some text only if it is more than blanks. -/
def unlessBlank : Option String → Option String
  | some s => if onlyBlanks s then none else some s
  | none => none

/-- Cuts at each character on which `p` holds; `n` cuts leave `n + 1` pieces, some perhaps empty. -/
def pieces (p : Char → Bool) : List Char → List (List Char)
  | [] => [[]]
  | c :: r =>
    if p c then [] :: pieces p r
    else match pieces p r with
      | [] => [[c]]
      | w :: ws => (c :: w) :: ws

/-- The pieces between the occurrences of `c`. -/
def split (c : Char) (s : String) : List String :=
  (pieces (· == c) s.toList).map String.ofList

/-- What is left of a text after a leading `lead`. -/
def dropLead? : List Char → List Char → Option (List Char)
  | [], s => some s
  | _ :: _, [] => none
  | c :: lead, d :: s => if c = d then dropLead? lead s else none

/-- What is left of a text after a leading `lead`. -/
def afterLead? (lead s : String) : Option String :=
  (dropLead? lead.toList s.toList).map String.ofList

/-- What is left of a text before a closing `tail`. -/
def beforeTail? (tail s : String) : Option String :=
  (dropLead? tail.toList.reverse s.toList.reverse).map fun r => String.ofList r.reverse

/-- Cuts at the first occurrence of `mark`, which goes to neither side. -/
def cutAt? (mark : List Char) : List Char → Option (List Char × List Char)
  | [] => if mark.isEmpty then some ([], []) else none
  | c :: r =>
    match dropLead? mark (c :: r) with
    | some rest => some ([], rest)
    | none => (cutAt? mark r).map fun (l, rest) => (c :: l, rest)

/-- Whether `part` occurs in `s`. -/
def occurs (part s : String) : Bool :=
  (cutAt? part.toList s.toList).isSome

/-- Lines end at a line feed, which a carriage return may precede; a last empty line is none. -/
def lines (s : String) : List String :=
  close (pieces (· == '\n') s.toList)
where
  close : List (List Char) → List String
    | [] => []
    | [last] => if last.isEmpty then [] else [String.ofList last]
    | line :: rest => String.ofList (bare line) :: close rest
  bare (line : List Char) : List Char :=
    match line.reverse with
    | '\r' :: r => r.reverse
    | _ => line

/-- Puts a text in the place of each `c`. -/
def replace (c : Char) (text s : List Char) : List Char :=
  s.flatMap fun d => if d == c then text else [d]

/-- ASCII letters in lower case; all else stays. -/
def lower (s : String) : String :=
  String.ofList (s.toList.map Char.toLower)

/-- ASCII letters in upper case; all else stays. -/
def upper (s : String) : String :=
  String.ofList (s.toList.map Char.toUpper)

end SdkSmith.Text
