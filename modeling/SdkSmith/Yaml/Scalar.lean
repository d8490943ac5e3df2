import SdkSmith.Json.Reader
import SdkSmith.Yaml.Cursor

/-!
The texts of YAML scalars. Line ends within plain and quoted scalars are folded: a single one
becomes a space, and of several the first is dropped.
-/
namespace SdkSmith.Yaml

/-- Blanks and line ends between two parts of a scalar. -/
structure Gap where
  /-- Whether the part before was ended by a line end. -/
  isBroken : Bool
  blanks : List Char
  first : Option Char
  later : List Char
deriving Repr

namespace Gap

/-- No gap. -/
def none : Gap := ⟨false, [], Option.none, []⟩

/-- What a gap comes to within the scalar. -/
def text (g : Gap) : List Char :=
  if !g.isBroken then g.blanks
  else match g.first with
    | some '\n' => if g.later.isEmpty then [' '] else g.later
    | some b => b :: g.later
    | Option.none => g.later

/-- A gap with one more line end. -/
def addBreak (g : Gap) (b : Char) : Gap :=
  if g.isBroken then { g with later := g.later ++ [b] }
  else { g with isBroken := true, blanks := [], first := some b }

/-- A gap with one more blank; those that indent a line do not count. -/
def addBlank (g : Gap) (b : Char) : Gap :=
  if g.isBroken then g else { g with blanks := g.blanks ++ [b] }

/-- The gap from a place on. A line may not be indented with tabs up to `margin`. -/
def scan (margin : Nat) : Nat → Gap → Cursor → Option (Gap × Cursor)
  | 0, _, _ => Option.none
  | fuel + 1, g, c =>
    match c.lineBreak? with
    | some (b, c) => scan margin fuel (g.addBreak b) c
    | Option.none =>
      match c.next? with
      | some b =>
        if !isBlank b then some (g, c)
        else if g.isBroken && c.column < margin && b == '\t' then Option.none
        else scan margin fuel (g.addBlank b) (c.skip 1)
      | Option.none => some (g, c)

end Gap

/-! Plain scalars -/

/-- Whether a character ends a plain scalar within brackets. -/
def isFlowIndicator (c : Char) : Bool :=
  c == ',' || c == '[' || c == ']' || c == '{' || c == '}'

/-- The part of a plain scalar up to a blank, a line end or an indicator. Within brackets a colon
directly before one of them is refused. -/
def plainPart (inFlow : Bool) : List Char → Option (List Char)
  | [] => some []
  | c :: r =>
    if isBlank c || isBreak c then some []
    else if c == ':' then
      if endsWord r.head? then some []
      else if inFlow && r.head?.any fun d => isFlowIndicator d || d == '?' then none
      else (plainPart inFlow r).map (c :: ·)
    else if inFlow && isFlowIndicator c then some []
    else (plainPart inFlow r).map (c :: ·)

/-- A plain scalar with what it has so far and the gap after that. The flag tells whether it ends
with a line. -/
def plainFrom (inFlow : Bool) (margin : Nat) :
    Nat → List Char → Gap → Cursor → Option (List Char × Bool × Cursor)
  | 0, _, _, _ => none
  | fuel + 1, s, g, c => do
    if c.atDocumentMark || c.next? = some '#' then return (s, g.isBroken, c)
    let part ← plainPart inFlow c.rest
    if part.isEmpty then return (s, g.isBroken, c)
    let s := s ++ g.text ++ part
    let c := c.skip part.length
    if !(c.next?.any fun b => isBlank b || isBreak b) then return (s, false, c)
    let (g, c) ← Gap.scan margin (c.rest.length + 1) .none c
    if !inFlow && c.column < margin then return (s, g.isBroken, c)
    plainFrom inFlow margin fuel s g c

/-- The plain scalar at a place. -/
def plainScalar (inFlow : Bool) (margin : Nat) (c : Cursor) :
    Option (List Char × Bool × Cursor) :=
  plainFrom inFlow margin (c.rest.length + 1) [] .none c

/-! Quoted scalars -/

/-- What a letter after a backslash stands for. -/
def escapeOf : Char → Option Char
  | '0' => some '\x00'
  | 'a' => some '\x07'
  | 'b' => some '\x08'
  | 't' | '\t' => some '\t'
  | 'n' => some '\n'
  | 'v' => some '\x0b'
  | 'f' => some '\x0c'
  | 'r' => some '\r'
  | 'e' => some '\x1b'
  | ' ' => some ' '
  | '"' => some '"'
  | '/' => some '/'
  | '\\' => some '\\'
  | 'N' => some '\x85'
  | '_' => some '\xa0'
  | 'L' => some '\u2028'
  | 'P' => some '\u2029'
  | _ => none

/-- The number of hexadecimal digits after a letter. -/
def digitsAfter : Char → Option Nat
  | 'x' => some 2
  | 'u' => some 4
  | 'U' => some 8
  | _ => none

/-- The character whose number is written in hexadecimal digits. -/
def ofHex? (digits : List Char) : Option Char := do
  let ds ← digits.mapM Json.Reader.hexDigit?
  let n := ds.foldl (fun a d => a * 16 + d) 0
  if n.isValidChar then some (Char.ofNat n) else none

/-- The character that an escape stands for, and the place after it. -/
def escape? (c : Cursor) : Option (Char × Cursor) := do
  let letter ← c.second?
  match digitsAfter letter with
  | some n =>
    let digits := (c.rest.drop 2).take n
    if digits.length < n then none
    let a ← ofHex? digits
    return (a, c.skip (n + 2))
  | none =>
    let a ← escapeOf letter
    return (a, c.skip 2)

/-- The part of a quoted scalar up to a blank, a line end or the closing quote. The flag tells
whether a backslash took the line end. -/
def quotedPart (quote : Char) : Nat → List Char → Cursor → Option (List Char × Bool × Cursor)
  | 0, _, _ => none
  | fuel + 1, s, c =>
    match c.next? with
    | none => some (s, false, c)
    | some a =>
      if isBlank a || isBreak a then some (s, false, c)
      else if a = quote then
        if quote == '\'' && c.second? = some '\'' then quotedPart quote fuel (s ++ [a]) (c.skip 2)
        else some (s, false, c)
      else if quote == '"' && a == '\\' then
        match (c.skip 1).lineBreak? with
        | some (_, c) => some (s, true, c)
        | none => do
          let (b, c) ← escape? c
          quotedPart quote fuel (s ++ [b]) c
      else quotedPart quote fuel (s ++ [a]) (c.skip 1)

/-- A quoted scalar with what it has so far, from a place after the opening quote. -/
def quotedFrom (quote : Char) : Nat → List Char → Cursor → Option (List Char × Cursor)
  | 0, _, _ => none
  | fuel + 1, s, c => do
    if c.atDocumentMark || c.rest.isEmpty then none
    let (s, isTaken, c) ← quotedPart quote (c.rest.length + 1) s c
    if c.next? = some quote then return (s, c.skip 1)
    let (g, c) ← Gap.scan 0 (c.rest.length + 1) { Gap.none with isBroken := isTaken } c
    quotedFrom quote fuel (s ++ g.text) c

/-- The quoted scalar at a place. -/
def quotedScalar (quote : Char) (c : Cursor) : Option (List Char × Cursor) :=
  quotedFrom quote (c.rest.length + 1) [] (c.skip 1)

/-! Block scalars -/

/-- What becomes of the line ends at the end of a block scalar: of none, of one, of all. -/
inductive Chomping
  | strip
  | clip
  | keep
deriving DecidableEq, Repr

/-- The chomping that an indicator asks for. -/
def chomping? : Option Char → Option Chomping
  | some '+' => some .keep
  | some '-' => some .strip
  | _ => none

/-- The chomping and the indentation after the indicator of a block scalar, in either order. -/
def blockHeader (c : Cursor) : Option (Chomping × Option Nat × Cursor) := do
  let (before?, c) := match chomping? c.next? with
    | some k => (some k, c.skip 1)
    | none => (none, c)
  let (indent, c) ← match c.next? with
    | some d =>
      if d == '0' then none
      else if d.isDigit then some (some (d.toNat - 48), c.skip 1)
      else some (none, c)
    | none => some (none, c)
  let (after?, c) := match before?, indent, chomping? c.next? with
    | none, some _, some k => (some k, c.skip 1)
    | _, _, _ => (none, c)
  return ((before?.or after?).getD .clip, indent, c)

/-- The line ends of empty lines, the deepest indentation among them, and the place after them. A
line is empty up to `indent`, or up to its end where that is not known. -/
def emptyLines (indent : Option Nat) :
    Nat → List Char → Nat → Cursor → Option (List Char × Nat × Cursor)
  | 0, _, _, _ => none
  | fuel + 1, breaks, deepest, c =>
    let isWithin (column : Nat) : Bool := indent.all fun n => column < n
    let spaces := (c.rest.takeWhile (· == ' ')).length
    let c := c.skip (match indent with
      | some n => min spaces (n - c.column)
      | none => spaces)
    let deepest := max deepest c.column
    if isWithin c.column && c.next? = some '\t' then none
    else match c.lineBreak? with
      | some (b, c) => emptyLines indent fuel (breaks ++ [b]) deepest c
      | none => some (breaks, deepest, c)

/-- The lines of a block scalar with what it has so far, the last line end, and those of empty
lines after it. The flags tell whether lines are folded, and whether the line before began with a
blank. -/
def blockLines (isFolded : Bool) (indent : Nat) :
    Nat → List Char → Option Char → List Char → Bool → Cursor →
      Option (List Char × Option Char × List Char × Cursor)
  | 0, _, _, _, _, _ => none
  | fuel + 1, s, last, empty, isDeep, c =>
    if c.column != indent || c.rest.isEmpty then some (s, last, empty, c)
    else do
      let deepNow := c.next?.any isBlank
      let joint :=
        if isFolded && last == some '\n' && !isDeep && !deepNow then
          if empty.isEmpty then [' '] else []
        else last.toList
      let (line, c) := c.span fun a => !isBreak a
      let s := s ++ joint ++ empty ++ line
      let (last, c) := match c.lineBreak? with
        | some (b, c) => (some b, c)
        | none => (none, c)
      let (empty, _, c) ← emptyLines (some indent) (c.rest.length + 1) [] 0 c
      blockLines isFolded indent fuel s last empty deepNow c

/-- The block scalar at a place within blocks of a margin. -/
def blockScalar (isFolded : Bool) (margin : Nat) (c : Cursor) : Option (List Char × Cursor) := do
  let (chomping, given, c) ← blockHeader (c.skip 1)
  let c := (← c.lineEnd?).skipBreak
  let given := given.map fun n => margin - 1 + n
  let (empty, deepest, c) ← emptyLines given (c.rest.length + 1) [] 0 c
  let indent := given.getD (max (max deepest margin) 1)
  let (s, last, empty, c) ← blockLines isFolded indent (c.rest.length + 1) [] none empty false c
  let tail := match chomping with
    | .strip => []
    | .clip => last.toList
    | .keep => last.toList ++ empty
  return (s ++ tail, c)

end SdkSmith.Yaml
