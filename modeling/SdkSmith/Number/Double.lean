/-!
Finite binary floating-point numbers of 64 bits, as a sign, a natural `mantissa` and an
`exponent` of two. Rounding is to the nearest, a tie to the even mantissa, in exact arithmetic.
-/
namespace SdkSmith

/-- The number `±mantissa · 2 ^ exponent`. -/
structure Double where
  negative : Bool
  mantissa : Nat
  exponent : Int
deriving DecidableEq, Repr, Inhabited

namespace Double

/-- The least exponent of two. -/
def leastExponent : Int := -1074

/-- The greatest exponent of two. -/
def greatestExponent : Int := 971

/-- One more than the greatest mantissa. -/
def mantissaBound : Nat := Nat.pow 2 53

/-- Zero with a sign. -/
def zero (negative : Bool) : Double := ⟨negative, 0, leastExponent⟩

/-- The quotient to the nearest natural number, a tie to the even one. -/
def roundDiv (num den : Nat) : Nat :=
  let q := num / den
  let r := 2 * (num % den)
  if r < den then q else if den < r then q + 1 else if q % 2 = 0 then q else q + 1

/-- `num / den` in units of `2 ^ e`, as a quotient of natural numbers. -/
def inUnits (num den : Nat) (e : Int) : Nat × Nat :=
  if e < 0 then (num * Nat.pow 2 e.natAbs, den) else (num, den * Nat.pow 2 e.toNat)

/-- The number of binary digits. -/
def bitLength (n : Nat) : Nat :=
  if n = 0 then 0 else n.log2 + 1

/-- The exponent at which `num / den` has a mantissa of 53 digits, or the least one. -/
def exponentFor (num den : Nat) : Int :=
  let guess := max leastExponent ((bitLength num : Int) - bitLength den - 53)
  let (n, d) := inUnits num den guess
  if n / d < mantissaBound then guess else guess + 1

/-- The number nearest to `num / den`, or nothing where that is beyond the greatest. -/
def ofRatio? (negative : Bool) (num den : Nat) : Option Double :=
  if num = 0 then some (zero negative) else
  let e := exponentFor num den
  let (n, d) := inUnits num den e
  let m := roundDiv n d
  let (m, e) := if m = mantissaBound then (m / 2, e + 1) else (m, e)
  if greatestExponent < e then none else some ⟨negative, m, e⟩

/-- The number nearest to a natural number. -/
def ofNat? (negative : Bool) (n : Nat) : Option Double :=
  ofRatio? negative n 1

/-- The number as a quotient of natural numbers, without its sign. -/
def ratio (x : Double) : Nat × Nat :=
  if x.exponent < 0 then (x.mantissa, Nat.pow 2 x.exponent.natAbs)
  else (x.mantissa * Nat.pow 2 x.exponent.toNat, 1)

/-- The number nearest to `digits · 10 ^ scale`, or nothing beyond the greatest. The scale is
looked at only as far as it can matter. -/
def ofDecimal? (negative : Bool) (digits : Nat) (scale : Int) : Option Double :=
  if digits = 0 then some (zero negative) else
  let places : Int := (Nat.toDigits 10 digits).length + scale
  if 400 < places then none
  else if places < -400 then some (zero negative)
  else if scale < 0 then ofRatio? negative digits (Nat.pow 10 scale.natAbs)
  else ofRatio? negative (digits * Nat.pow 10 scale.toNat) 1

/-- The rounded product. -/
def mul? (x y : Double) : Option Double :=
  let (a, b) := x.ratio
  let (c, d) := y.ratio
  ofRatio? (x.negative != y.negative) (a * c) (b * d)

/-- The rounded quotient by a number other than zero. -/
def div? (x y : Double) : Option Double :=
  let (a, b) := x.ratio
  let (c, d) := y.ratio
  ofRatio? (x.negative != y.negative) (a * d) (b * c)

end Double
end SdkSmith
