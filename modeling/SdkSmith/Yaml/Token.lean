import SdkSmith.Yaml.Scalar

/-!
The tokens of YAML: scalars, indicators, and the bounds of blocks, which indentation gives. The
start of a mapping and the mark of its first key come before a key that only a later colon shows to
be one, so a place is kept for them while the key may still be there.
-/
namespace SdkSmith.Yaml

/-- A token. The end of the text is the end of the list of tokens. -/
inductive Token
  | version (major minor : Nat)
  | shorthand (handle full : String)
  | documentStart
  | documentEnd
  | sequenceBlock
  | mappingBlock
  | blockEnd
  | sequenceOpen
  | sequenceClose
  | mappingOpen
  | mappingClose
  | item
  | comma
  | key
  | value
  | aliasOf (name : String)
  | anchor (name : String)
  | tag (handle rest : String)
  | scalar (text : String) (isPlain : Bool)
deriving DecidableEq, Repr

/-! Names: anchors, tags and directives -/

/-- Whether a character may follow the name of an anchor. -/
def endsName (c : Option Char) : Bool :=
  endsWord c || c.any fun c =>
    c == '?' || c == ':' || c == ',' || c == ']' || c == '}' || c == '%' || c == '@' || c == '\x60'

/-- The name of an anchor or alias, after its indicator. -/
def anchorName (c : Cursor) : Option (String × Cursor) :=
  let (name, c) := (c.skip 1).span isWord
  if name.isEmpty || !endsName c.next? then none else some (String.ofList name, c)

/-- The characters of a tag, of which brackets and commas stand only between angle brackets. -/
def isTagChar (isFull : Bool) (c : Char) : Bool :=
  isWord c ||
    [';', '/', '?', ':', '@', '&', '=', '+', '$', '.', '!', '~', '*', '\'', '(', ')'].contains c ||
    (isFull && (c == ',' || c == '[' || c == ']'))

/-- The byte that a percent sign and two digits stand for. -/
def escapedByte? (s : List Char) : Option Nat :=
  match s with
  | '%' :: a :: b :: _ => do
    let a ← Json.Reader.hexDigit? a
    let b ← Json.Reader.hexDigit? b
    return a * 16 + b
  | _ => none

/-- The number of bytes of a character with this first one, and the first one's share. -/
def byteLead? (b : Nat) : Option (Nat × Nat) :=
  if b < 0x80 then some (1, b)
  else if b / 0x20 = 6 then some (2, b % 0x20)
  else if b / 0x10 = 14 then some (3, b % 0x10)
  else if b / 8 = 30 then some (4, b % 8)
  else none

/-- The code of a character with its later bytes. -/
def laterBytes? : Nat → Nat → Cursor → Option (Nat × Cursor)
  | 0, code, c => some (code, c)
  | n + 1, code, c => do
    let b ← escapedByte? c.rest
    if b / 0x40 ≠ 2 then none
    laterBytes? n (code * 0x40 + b % 0x40) (c.skip 3)

/-- The character that escaped bytes stand for. -/
def escapedChar? (c : Cursor) : Option (Char × Cursor) := do
  let b ← escapedByte? c.rest
  let (n, share) ← byteLead? b
  let (code, c) ← laterBytes? (n - 1) share (c.skip 3)
  if code.isValidChar then some (Char.ofNat code, c) else none

/-- The text of a tag, with escapes undone. -/
def tagText (isFull : Bool) : Nat → List Char → Cursor → Option (List Char × Cursor)
  | 0, _, _ => none
  | fuel + 1, s, c =>
    match c.next? with
    | some '%' => do
      let (a, c) ← escapedChar? c
      tagText isFull fuel (s ++ [a]) c
    | some a =>
      if isTagChar isFull a then tagText isFull fuel (s ++ [a]) (c.skip 1) else some (s, c)
    | none => some (s, c)

/-- The handle at the start of a tag: words between exclamation marks, perhaps without the second
mark. -/
def tagHandle (c : Cursor) : List Char × Cursor :=
  let (name, c) := (c.skip 1).span isWord
  if c.next? = some '!' then ('!' :: name ++ ['!'], c.skip 1) else ('!' :: name, c)

/-- Whether a handle is more than one exclamation mark and ends with one. -/
def isFullHandle (handle : List Char) : Bool :=
  1 < handle.length && handle.getLast? == some '!'

/-- The tag at a place. One in angle brackets stands as it is, without a handle. -/
def tagToken (c : Cursor) : Option (Token × Cursor) := do
  let fuel := c.rest.length + 1
  if c.second? = some '<' then
    let (s, c) ← tagText true fuel [] (c.skip 2)
    if s.isEmpty || c.next? ≠ some '>' then none
    return (.tag "" (String.ofList s), c.skip 1)
  let (handle, after) := tagHandle c
  if isFullHandle handle then
    let (s, c) ← tagText false fuel [] after
    if s.isEmpty then none
    return (.tag (String.ofList handle) (String.ofList s), c)
  let (s, c) ← tagText false fuel handle.tail after
  return (if s.isEmpty then .tag "" "!" else .tag "!" (String.ofList s), c)

/-- A number of at most nine digits. -/
def versionNumber (c : Cursor) : Option (Nat × Cursor) :=
  let (digits, c) := c.span Char.isDigit
  if digits.isEmpty || 9 < digits.length then none
  else some (digits.foldl (fun n d => n * 10 + (d.toNat - 48)) 0, c)

/-- The directive at a place, and the place after its line. -/
def directive (c : Cursor) : Option (Token × Cursor) := do
  let (name, c) := (c.skip 1).span isWord
  if name.isEmpty || !endsWord c.next? then none
  let c := c.skipWhile isBlank
  let (t, c) ← match String.ofList name with
    | "YAML" => do
      let (major, c) ← versionNumber c
      if c.next? ≠ some '.' then none
      let (minor, c) ← versionNumber (c.skip 1)
      pure (Token.version major minor, c)
    | "TAG" => do
      if c.next? ≠ some '!' then none
      let (handle, c) := tagHandle c
      if handle ≠ ['!'] && !isFullHandle handle then none
      if !(c.next?.any isBlank) then none
      let c := c.skipWhile isBlank
      let (full, c) ← tagText true (c.rest.length + 1) [] c
      if full.isEmpty || !endsWord c.next? then none
      pure (Token.shorthand (String.ofList handle) (String.ofList full), c)
    | _ => none
  return (t, (← c.lineEnd?).skipBreak)

/-! The tokens of a text -/

/-- A place where a key may have begun. -/
structure KeyPlace where
  /-- Whether it has to be one, because of its column. -/
  isRequired : Bool
  /-- The number of tokens before it. -/
  count : Nat
  cursor : Cursor
deriving Repr

/-- Tokens so far, and what decides on those to come. -/
structure Scan where
  cursor : Cursor
  /-- The tokens, the last one first. -/
  tokens : List Token
  count : Nat
  /-- One more than the column of the innermost block, or zero outside of all. -/
  margin : Nat
  /-- The margins of the blocks around it. -/
  outer : List Nat
  /-- Whether a key may begin here. -/
  keyAllowed : Bool
  /-- Where a key may have begun, for each pair of brackets around and outside of all. -/
  keys : List (Option KeyPlace)
deriving Repr

namespace Scan

/-- The start of a text. -/
def start (s : List Char) : Scan :=
  ⟨.start s, [], 0, 0, [], true, [none]⟩

/-- Whether the place is within brackets. -/
def inFlow (s : Scan) : Bool :=
  1 < s.keys.length

/-- Adds a token. -/
def push (s : Scan) (t : Token) : Scan :=
  { s with tokens := t :: s.tokens, count := s.count + 1 }

/-- Adds a token after the first `n`. -/
def insert (s : Scan) (n : Nat) (t : Token) : Scan :=
  let (late, early) := s.tokens.splitAt (s.count - n)
  { s with tokens := late ++ t :: early, count := s.count + 1 }

/-- Adds a token of so many characters. -/
def indicator (s : Scan) (t : Token) (n : Nat) : Scan :=
  { s.push t with cursor := s.cursor.skip n }

/-- Forgets where the innermost key may have begun, or fails where one had to. -/
def dropKey (s : Scan) : Option Scan :=
  match s.keys with
  | some k :: ks => if k.isRequired then none else some { s with keys := none :: ks }
  | _ => some s

/-- Notes that a key may begin here. -/
def noteKey (s : Scan) : Option Scan :=
  if !s.keyAllowed then some s
  else do
    let s ← s.dropKey
    let k : KeyPlace := ⟨!s.inFlow && s.margin == s.cursor.column + 1, s.count, s.cursor⟩
    return { s with keys := some k :: s.keys.tail }

/-- The most characters between a key's start and its colon. -/
def keyLimit : Nat := 1024

/-- Whether a key that began there may still end here. -/
def reaches (k : KeyPlace) (c : Cursor) : Bool :=
  k.cursor.line == c.line && c.index ≤ k.cursor.index + keyLimit

/-- Forgets keys that are too far back, or fails where one had to be. -/
def dropOldKeys (s : Scan) : Option Scan :=
  let old (k : Option KeyPlace) : Bool := k.any fun k => !reaches k s.cursor
  if s.keys.any fun k => old k && k.any (·.isRequired) then none
  else some { s with keys := s.keys.map fun k => if old k then none else k }

/-- Opens a block at a column, unless the innermost one is as deep; its token goes after the first
`n`. -/
def openBlock (s : Scan) (column n : Nat) (t : Token) : Scan :=
  if s.inFlow || column < s.margin then s
  else { s.insert n t with margin := column + 1, outer := s.margin :: s.outer }

/-- Closes the blocks beyond a margin. -/
def closeBlocks (margin : Nat) : Nat → List Nat → Scan → Scan
  | _, [], s => s
  | current, m :: ms, s =>
    if margin < current then
      closeBlocks margin m ms { s.push .blockEnd with margin := m, outer := ms }
    else s

/-- Closes the blocks that a column is outside of. -/
def closeTo (s : Scan) (margin : Nat) : Scan :=
  if s.inFlow then s else closeBlocks margin s.margin s.outer s

/-- The place of the next token, beyond blanks, comments and line ends. Tabs count as blanks only
where no key may begin. -/
def skipToToken : Nat → Scan → Scan
  | 0, s => s
  | fuel + 1, s =>
    let isSkipped (c : Char) : Bool := c == ' ' || (c == '\t' && (s.inFlow || !s.keyAllowed))
    let c := s.cursor.skipWhile isSkipped
    let c := if c.next? = some '#' then c.skipWhile fun a => !isBreak a else c
    match c.lineBreak? with
    | some (_, c) =>
      skipToToken fuel { s with cursor := c, keyAllowed := s.keyAllowed || !s.inFlow }
    | none => { s with cursor := c }

/-- Adds a token that bounds or describes documents, outside of all blocks. -/
def addOuter (s : Scan) (t : Token) (c : Cursor) : Option Scan := do
  let s ← (s.closeTo 0).dropKey
  return { s.push t with keyAllowed := false, cursor := c }

/-- Adds an opening bracket. -/
def addOpening (s : Scan) (t : Token) : Option Scan := do
  let s ← s.noteKey
  return { s.indicator t 1 with keyAllowed := true, keys := none :: s.keys }

/-- Adds a closing bracket. -/
def addClosing (s : Scan) (t : Token) : Option Scan := do
  let s ← s.dropKey
  let keys := if s.inFlow then s.keys.tail else s.keys
  return { s.indicator t 1 with keyAllowed := false, keys := keys }

/-- Adds a comma. -/
def addComma (s : Scan) : Option Scan := do
  let s ← s.dropKey
  return { s.indicator .comma 1 with keyAllowed := true }

/-- Adds the mark of an item of a block. -/
def addItem (s : Scan) : Option Scan := do
  if !s.inFlow && !s.keyAllowed then none
  let s ← (s.openBlock s.cursor.column s.count .sequenceBlock).dropKey
  return { s.indicator .item 1 with keyAllowed := true }

/-- Adds the mark of a key. -/
def addKey (s : Scan) : Option Scan := do
  if !s.inFlow && !s.keyAllowed then none
  let s ← (s.openBlock s.cursor.column s.count .mappingBlock).dropKey
  return { s.indicator .key 1 with keyAllowed := !s.inFlow }

/-- Adds the mark of a value, and that of its key where the key began without one. -/
def addValue (s : Scan) : Option Scan :=
  match s.keys with
  | some k :: ks =>
    let s := (s.insert k.count .key).openBlock k.cursor.column k.count .mappingBlock
    some { s.indicator .value 1 with keyAllowed := false, keys := none :: ks }
  | _ =>
    if !s.inFlow && !s.keyAllowed then none
    else
      let s := s.openBlock s.cursor.column s.count .mappingBlock
      some { s.indicator .value 1 with keyAllowed := !s.inFlow }

/-- Adds a token with which a key may begin. -/
def addNode (s : Scan) (t : Token) (c : Cursor) (keyAllowed : Bool) : Option Scan := do
  let s ← s.noteKey
  return { s.push t with cursor := c, keyAllowed := keyAllowed }

/-- Adds a block scalar. -/
def addBlockScalar (s : Scan) (isFolded : Bool) : Option Scan := do
  let s ← s.dropKey
  let (text, c) ← blockScalar isFolded s.margin s.cursor
  return { s.push (.scalar (String.ofList text) false) with cursor := c, keyAllowed := true }

/-- Whether a plain scalar begins here. -/
def atPlain (s : Scan) : Bool :=
  match s.cursor.next? with
  | none => false
  | some '-' => !(s.cursor.second?.any isBlank)
  | some a =>
    if a == '?' || a == ':' then !s.inFlow && !endsWord s.cursor.second?
    else !(isBlank a || isBreak a || isFlowIndicator a ||
      ['#', '&', '*', '!', '|', '>', '\'', '"', '%', '@', '\x60'].contains a)

/-- Adds a plain scalar. -/
def addPlain (s : Scan) : Option Scan := do
  let (text, endsLine, c) ← plainScalar s.inFlow s.margin s.cursor
  s.addNode (.scalar (String.ofList text) true) c endsLine

/-- Adds the next token, at a place where it begins. -/
def addNext (s : Scan) (a : Char) : Option Scan :=
  let c := s.cursor
  let standsAlone := s.inFlow || endsWord c.second?
  if c.column == 0 && a == '%' then do
    let (t, c) ← directive c
    s.addOuter t c
  else if c.atMark '-' then s.addOuter .documentStart (c.skip 3)
  else if c.atMark '.' then s.addOuter .documentEnd (c.skip 3)
  else if a == '[' then s.addOpening .sequenceOpen
  else if a == '{' then s.addOpening .mappingOpen
  else if a == ']' then s.addClosing .sequenceClose
  else if a == '}' then s.addClosing .mappingClose
  else if a == ',' then s.addComma
  else if a == '-' && endsWord c.second? then s.addItem
  else if a == '?' && standsAlone then s.addKey
  else if a == ':' && standsAlone then s.addValue
  else if a == '*' then do
    let (name, c) ← anchorName c
    s.addNode (.aliasOf name) c false
  else if a == '&' then do
    let (name, c) ← anchorName c
    s.addNode (.anchor name) c false
  else if a == '!' then do
    let (t, c) ← tagToken c
    if !endsWord c.next? && !(s.inFlow && c.next? = some ',') then none
    s.addNode t c false
  else if a == '|' && !s.inFlow then s.addBlockScalar false
  else if a == '>' && !s.inFlow then s.addBlockScalar true
  else if a == '\'' || a == '"' then do
    let (text, c) ← quotedScalar a c
    s.addNode (.scalar (String.ofList text) false) c false
  else if s.atPlain then s.addPlain
  else none

/-- The tokens to the end of the text. -/
def run : Nat → Scan → Option (List Token)
  | 0, _ => none
  | fuel + 1, s => do
    let s := skipToToken (s.cursor.rest.length + 1) s
    let s ← s.dropOldKeys
    let s := s.closeTo (s.cursor.column + 1)
    match s.cursor.next? with
    | none => return (← (s.closeTo 0).dropKey).tokens.reverse
    | some a => run fuel (← s.addNext a)

end Scan

/-- The tokens of a text, or nothing where it has none. -/
def tokens? (s : List Char) : Option (List Token) :=
  if s.all isReadable then Scan.run (s.length + 1) (.start s) else none

end SdkSmith.Yaml
