import Reshape.Number.Binary64

/-!
# Shortest decimals

The decimal with the fewest digits that rounds to a given double-precision
number.  All reals between the midpoints to the two neighbours round to it, the
midpoints themselves only if the significand is even.  For one digit, two
digits, and so on, the two decimals around the number are tried, and the first
that lies in this interval is taken; of two, the nearer.
-/

namespace Reshape

/-- The decimal `coefficient * 10 ^ exponent`. -/
structure Decimal where
  coefficient : Nat
  exponent : Int
deriving DecidableEq, Repr

namespace Decimal

def digits (d : Decimal) : Text :=
  Text.ofNat d.coefficient

/-- The exponent of the leading digit. -/
def leadingExponent (d : Decimal) : Int :=
  d.exponent + d.digits.length - 1

end Decimal

namespace Binary64

/-- The interval of reals that round to a positive number, as three multiples of
one unit: its lower end, the number, its upper end. -/
structure Reach where
  low : Nat
  value : Nat
  high : Nat
  unit : Nat × Nat
  closed : Bool

/-- The interval around a number, in quarters of its last place.  Below a power
of two the neighbour is only half as far away. -/
def reach (x : Binary64) : Reach :=
  let m := x.significand
  let step := if m = Nat.pow 2 52 && minExponent < x.exponent then 1 else 2
  ⟨4 * m - step, 4 * m, 4 * m + 2, powerOfTwo (x.exponent - 2), m % 2 = 0⟩

/-- The exponent of the leading decimal digit of a positive fraction. -/
def decimalExponent (num den : Nat) : Int :=
  if den ≤ num then (Text.ofNat (num / den)).length - 1
  else
    let places := (Text.ofNat (den / num)).length
    if num * Nat.pow 10 (places - 1) = den then 1 - places else - places

/-- The decimal with the given last place that rounds to the number, if one of
the two around it does. -/
def candidate? (r : Reach) (place : Int) : Option Decimal :=
  let (up, down) := r.unit
  -- Compare in units of `1 / (down * 10 ^ (-place))`.
  let grid := Nat.pow 10 place.toNat * down
  let scale := Nat.pow 10 (-place).toNat * up
  let value := r.value * scale
  let floor := value / grid
  let inside (n : Nat) : Bool :=
    if r.closed then r.low * scale ≤ n * grid && n * grid ≤ r.high * scale
    else r.low * scale < n * grid && n * grid < r.high * scale
  let below := value - floor * grid
  let above := (floor + 1) * grid - value
  let lowerWins := below < above || (below == above && floor % 2 == 0)
  match inside floor, inside (floor + 1) with
  | true, true => some ⟨if lowerWins then floor else floor + 1, place⟩
  | true, false => some ⟨floor, place⟩
  | false, true => some ⟨floor + 1, place⟩
  | false, false => none

/-- Drops the zeros at the end of a coefficient of at most `fuel` digits. -/
def dropZeros : Nat → Decimal → Decimal
  | 0, d => d
  | fuel + 1, d =>
      if d.coefficient ≠ 0 && d.coefficient % 10 = 0 then
        dropZeros fuel ⟨d.coefficient / 10, d.exponent + 1⟩
      else d

/-- The decimal with the fewest digits that rounds to the number.  Seventeen
digits always suffice. -/
def shortest (x : Binary64) : Decimal :=
  if x.isZero then ⟨0, 0⟩
  else
    let (num, den) := x.fraction
    let leading := decimalExponent num den
    let r := x.reach
    let tries := (List.range 17).findSome? fun (n : Nat) => candidate? r (leading - n)
    dropZeros 20 (tries.getD ⟨num / den, 0⟩)

end Binary64

end Reshape
