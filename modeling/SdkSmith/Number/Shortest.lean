import SdkSmith.Number.Double

/-!
The fewest decimal digits that read back as a given number. For each count of digits the two
neighbours of the number on that decimal grid are tried against the interval of reals that round
to it; the first count with a hit wins, and of two hits the nearer.
-/
namespace SdkSmith.Double

/-- Decimal digits `d₁d₂…` with the point after the first, times `10 ^ exponent`. -/
structure Decimal where
  digits : List Char
  exponent : Int
deriving DecidableEq, Repr

/-- A number and the ends of the interval that rounds to it, over one denominator. -/
structure Interval where
  low : Nat
  value : Nat
  high : Nat
  den : Nat
  closed : Bool

/-- The interval of reals that round to `x`, which is not zero. -/
def interval (x : Double) : Interval :=
  let narrow := x.mantissa = Nat.pow 2 52 ∧ leastExponent < x.exponent
  let low := 4 * x.mantissa - (if narrow then 1 else 2)
  let value := 4 * x.mantissa
  let high := 4 * x.mantissa + 2
  let e := x.exponent - 2
  let (scale, den) := if e < 0 then (1, Nat.pow 2 e.natAbs) else (Nat.pow 2 e.toNat, 1)
  ⟨low * scale, value * scale, high * scale, den, x.mantissa % 2 = 0⟩

/-- Whether `n · 10 ^ k` lies in the interval. -/
def Interval.holds (i : Interval) (n : Nat) (k : Int) : Bool :=
  let (n, up) :=
    if k < 0 then (n * i.den, Nat.pow 10 k.natAbs) else (n * Nat.pow 10 k.toNat * i.den, 1)
  if i.closed then i.low * up ≤ n && n ≤ i.high * up else i.low * up < n && n < i.high * up

/-- The exponent of ten of the first digit of `num / den`, found from a guess by size. -/
def tenExponent (num den : Nat) : Int :=
  let guess : Int :=
    (Nat.toDigits 10 num).length - (Nat.toDigits 10 den).length
  let atLeast (k : Int) : Bool :=
    if k < 0 then den ≤ num * Nat.pow 10 k.natAbs else den * Nat.pow 10 k.toNat ≤ num
  if atLeast guess then guess else guess - 1

/-- The neighbour of the value on the grid of `10 ^ k` that lies in the interval, the nearer of
two, the even one of a tie. -/
def Interval.onGrid? (i : Interval) (k : Int) : Option Nat :=
  let (num, den) :=
    if k < 0 then (i.value * Nat.pow 10 k.natAbs, i.den) else (i.value, i.den * Nat.pow 10 k.toNat)
  let below := num / den
  let rest := 2 * (num % den)
  let above := below + 1
  match i.holds below k, i.holds above k with
  | true, true =>
    some (if rest < den then below else if den < rest then above
      else if below % 2 = 0 then below else above)
  | true, false => some below
  | false, true => some above
  | false, false => none

/-- Tries ever finer grids, from `k` on downward. -/
def Interval.search (i : Interval) : Nat → Int → Nat × Int
  | 0, k => (((i.onGrid? k).getD 0), k)
  | fuel + 1, k =>
    match i.onGrid? k with
    | some n => (n, k)
    | none => search i fuel (k - 1)

/-- Digits without the zeros at their end. -/
def trimZeros (ds : List Char) : List Char :=
  match (ds.reverse.dropWhile (· == '0')).reverse with
  | [] => ['0']
  | ds => ds

/-- The fewest digits that read back as `x`, without its sign. -/
def shortest (x : Double) : Decimal :=
  if x.mantissa = 0 then ⟨['0'], 0⟩ else
  let i := x.interval
  let (n, k) := i.search 17 (tenExponent i.value i.den)
  let ds := Nat.toDigits 10 n
  ⟨trimZeros ds, k + ds.length - 1⟩

/-- How a layout writes numbers: positionally from `10 ^ lowest` to below `10 ^ limit`, otherwise
with an exponent, before which a `plus` may stand. -/
structure Layout where
  lowest : Int
  limit : Int
  plus : Bool

/-- Writes a whole part and a fraction of at least one digit each. -/
def positional (d : Decimal) : List Char :=
  if d.exponent < 0 then
    ['0', '.'] ++ List.replicate (d.exponent.natAbs - 1) '0' ++ d.digits
  else
    let whole := d.exponent.toNat + 1
    let digits := d.digits ++ List.replicate (whole - d.digits.length) '0'
    let fraction := digits.drop whole
    digits.take whole ++ '.' :: (if fraction.isEmpty then ['0'] else fraction)

/-- Writes one digit, the others after a point, and the exponent. -/
def scientific (d : Decimal) (plus : Bool) : List Char :=
  let mantissa := match d.digits with
    | [] => []
    | [c] => [c]
    | c :: r => c :: '.' :: r
  let sign := if d.exponent < 0 then ['-'] else if plus then ['+'] else []
  mantissa ++ 'e' :: sign ++ Nat.toDigits 10 d.exponent.natAbs

/-- The text of a number in a layout. -/
def render (l : Layout) (x : Double) : String :=
  let d := x.shortest
  let body :=
    if x.mantissa = 0 then ['0', '.', '0']
    else if l.lowest ≤ d.exponent && d.exponent < l.limit then positional d
    else scientific d l.plus
  String.ofList (if x.negative then '-' :: body else body)

end SdkSmith.Double
