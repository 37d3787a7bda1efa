import Reshape.Text.Basic

/-!
# Double-precision numbers

A finite binary number of double precision, held as its sign, its significand
and its exponent, so that every operation on it is exact arithmetic on natural
numbers followed by one rounding.  `Binary64.nearest?` is that rounding: to the
nearest number, a tie going to the even significand, and `none` beyond the
largest finite number.
-/

namespace Reshape

/-- The number `significand * 2 ^ exponent`, negated if `negative`.  The two
zeros differ in their sign. -/
structure Binary64 where
  negative : Bool
  significand : Nat
  exponent : Int
deriving DecidableEq, Repr

namespace Binary64

/-- The least exponent, that of the subnormal numbers and of zero. -/
def minExponent : Int := -1074

/-- The exponent of the largest finite numbers. -/
def maxExponent : Int := 971

/-- Zero with the given sign. -/
def zero (negative : Bool) : Binary64 :=
  ⟨negative, 0, minExponent⟩

def isZero (x : Binary64) : Bool :=
  x.significand == 0

/-- A power of two as a fraction. -/
def powerOfTwo (exponent : Int) : Nat × Nat :=
  (Nat.pow 2 exponent.toNat, Nat.pow 2 (-exponent).toNat)

/-- The magnitude as a fraction. -/
def fraction (x : Binary64) : Nat × Nat :=
  let (num, den) := powerOfTwo x.exponent
  (x.significand * num, den)

/-- The quotient rounded to the nearest natural number, a tie going to the even
one. -/
def roundQuotient (num den : Nat) : Nat :=
  let quotient := num / den
  let rest := num % den
  if 2 * rest < den then quotient
  else if den < 2 * rest then quotient + 1
  else if quotient % 2 = 0 then quotient
  else quotient + 1

/-- The exponent at which the fraction has a significand of 53 bits, or the
least exponent if that is larger. -/
def exponentFor (num den : Nat) : Int :=
  let guess : Int := (num.log2 : Int) - den.log2 - 53
  let (up, down) := powerOfTwo guess
  let exponent := if Nat.pow 2 53 ≤ num * down / (den * up) then guess + 1 else guess
  max exponent minExponent

/-- The number nearest to the fraction `num / den`, for a positive `den`. -/
def nearest? (negative : Bool) (num den : Nat) : Option Binary64 :=
  if num = 0 then some (zero negative)
  else
    let exponent := exponentFor num den
    let (up, down) := powerOfTwo exponent
    let significand := roundQuotient (num * down) (den * up)
    let (significand, exponent) :=
      if significand = Nat.pow 2 53 then (Nat.pow 2 52, exponent + 1) else (significand, exponent)
    if maxExponent < exponent then none else some ⟨negative, significand, exponent⟩

/-- The number nearest to `coefficient * 10 ^ exponent`.  Exponents far outside
the range of the format are decided without computing the power. -/
def ofDecimal? (negative : Bool) (coefficient : Nat) (exponent : Int) : Option Binary64 :=
  let leading : Int := (Text.ofNat coefficient).length + exponent
  if coefficient = 0 || leading < -330 then some (zero negative)
  else if 310 < leading then none
  else nearest? negative (coefficient * Nat.pow 10 exponent.toNat) (Nat.pow 10 (-exponent).toNat)

/-- The rounded product of the magnitudes, with the sign of the first factor. -/
def times? (x y : Binary64) : Option Binary64 :=
  let (xNum, xDen) := x.fraction
  let (yNum, yDen) := y.fraction
  nearest? x.negative (xNum * yNum) (xDen * yDen)

/-- The rounded quotient of the magnitudes, with the sign of the dividend. -/
def over? (x y : Binary64) : Option Binary64 :=
  let (xNum, xDen) := x.fraction
  let (yNum, yDen) := y.fraction
  nearest? x.negative (xNum * yDen) (xDen * yNum)

end Binary64

end Reshape
