/-!
Punycode: labels of domain names in ASCII. The ASCII characters come first, then, for the others in
the order of their codes, how far each place is from the one before, as a number of variable
length.
-/
namespace SdkSmith.Url.Punycode

/-- The character of a digit. -/
def digitChar (d : Nat) : Char :=
  if d < 26 then Char.ofNat (97 + d) else Char.ofNat (22 + d)

/-- The digit of a character. -/
def digit? (c : Char) : Option Nat :=
  if 'a' ≤ c && c ≤ 'z' then some (c.toNat - 97)
  else if '0' ≤ c && c ≤ '9' then some (c.toNat - 22)
  else none

/-- The greatest digit that ends a number, less one, at a position. -/
def threshold (bias position : Nat) : Nat :=
  if position ≤ bias then 1 else min 26 (position - bias)

theorem threshold_bounds (bias position : Nat) :
    1 ≤ threshold bias position ∧ threshold bias position ≤ 26 := by
  unfold threshold
  split <;> omega

/-- The positions by which numbers of a size are longer. -/
def stretch (delta position : Nat) : Nat :=
  if 455 < delta then stretch (delta / 35) (position + 36)
  else position + 36 * delta / (delta + 38)
termination_by delta
decreasing_by exact Nat.div_lt_self (by omega) (by omega)

/-- The bias after a number, when so many characters are in place. -/
def adapt (delta count : Nat) (isFirst : Bool) : Nat :=
  let delta := if isFirst then delta / 700 else delta / 2
  stretch (delta + delta / count) 0

/-- A number in digits. -/
def digits (bias position n : Nat) : List Char :=
  let t := threshold bias position
  if n < t then [digitChar n]
  else digitChar (t + (n - t) % (36 - t)) :: digits bias (position + 36) ((n - t) / (36 - t))
termination_by n
decreasing_by
  have h := threshold_bounds bias position
  exact Nat.lt_of_le_of_lt (Nat.div_le_self _ _) (by omega)

/-- A label while it is encoded. -/
structure Encoding where
  output : List Char
  delta : Nat
  bias : Nat
  /-- The characters that are in place. -/
  count : Nat
deriving Repr

/-- Goes over a character, where those of one code are put in place. -/
def step (basic code : Nat) (e : Encoding) (c : Char) : Encoding :=
  if c.toNat < code then { e with delta := e.delta + 1 }
  else if c.toNat = code then
    { output := e.output ++ digits e.bias 36 e.delta
      delta := 0
      bias := adapt e.delta (e.count + 1) (e.count == basic)
      count := e.count + 1 }
  else e

/-- Puts the characters of each code in place. -/
def rounds (s : List Char) (basic : Nat) : List Nat → Nat → Encoding → Encoding
  | [], _, e => e
  | code :: codes, least, e =>
    let e := { e with delta := e.delta + (code - least) * (e.count + 1) }
    let e := s.foldl (step basic code) e
    rounds s basic codes (code + 1) { e with delta := e.delta + 1 }

/-- A label in ASCII. -/
def encode (s : List Char) : List Char :=
  let basic := s.filter fun c => c.toNat < 128
  let codes := ((s.map Char.toNat).filter (128 ≤ ·)).mergeSort.eraseDups
  let lead := if basic.isEmpty then [] else basic ++ ['-']
  (rounds s basic.length codes 128 ⟨lead, 0, 72, basic.length⟩).output

/-- A number at the front, and what follows it. -/
def number? (bias : Nat) : Nat → Nat → Nat → List Char → Option (Nat × List Char)
  | _, _, _, [] => none
  | position, weight, n, c :: r => do
    let d ← digit? c
    let n := n + d * weight
    let t := threshold bias position
    if d < t then return (n, r)
    number? bias (position + 36) (weight * (36 - t)) n r

/-- Puts a character into a place. -/
def insertAt (c : Char) : Nat → List Char → List Char
  | 0, s => c :: s
  | _, [] => [c]
  | n + 1, d :: s => d :: insertAt c n s

/-- A label with the characters that digits add to it. -/
def decodeFrom (output : List Char) (code index bias : Nat) (isFirst : Bool) :
    Nat → List Char → Option (List Char)
  | _, [] => some output
  | 0, _ => none
  | fuel + 1, s => do
    let (delta, s) ← number? bias 36 1 0 s
    let size := output.length + 1
    let code := code + (index + delta) / size
    let index := (index + delta) % size
    if !code.isValidChar then none
    decodeFrom (insertAt (Char.ofNat code) index output) code (index + 1) (adapt delta size isFirst)
      false fuel s

/-- The label that ASCII characters stand for. -/
def decode? (s : List Char) : Option (List Char) :=
  match s.reverse.dropWhile (· != '-') with
  | [] => decodeFrom [] 128 0 72 true s.length s
  | _ :: basic =>
    let basic := basic.reverse
    decodeFrom basic 128 0 72 true s.length (s.drop (basic.length + 1))

end SdkSmith.Url.Punycode
