import Reshape.Number.Basic

/-!
# Number literals

Numbers as they are written in a JSON text, and the numbers they denote.  An
integer in range denotes itself.  Any other literal denotes a double-precision
number: as many leading digits as fit into 64 bits form the significand, which
is rounded and then multiplied or divided by a rounded power of ten.
-/

namespace Reshape

namespace Number

/-- A number as written: its sign, the digits before and behind the point, and
the exponent. -/
structure Literal where
  negative : Bool
  whole : Text
  fraction : Option Text
  exponent : Option Int
deriving DecidableEq, Repr

namespace Literal

/-! ## Scanning -/

/-- The digits before the point: a zero alone, or digits that start with none. -/
def scanWhole? : Text → Option (Text × Text)
  | '0' :: rest => some (['0'], rest)
  | text =>
      let (digits, rest) := spanDigits text
      if digits.isEmpty then none else some (digits, rest)

/-- A point and at least one digit, if a point comes next. -/
def scanFraction? : Text → Option (Option Text × Text)
  | '.' :: rest =>
      let (digits, rest) := spanDigits rest
      if digits.isEmpty then none else some (some digits, rest)
  | text => some (none, text)

/-- An exponent mark, a sign if any, and at least one digit, if a mark comes
next. -/
def scanExponent? : Text → Option (Option Int × Text)
  | [] => some (none, [])
  | c :: rest =>
      if c = 'e' || c = 'E' then
        let (negative, rest) := spanSign rest
        let (digits, rest) := spanDigits rest
        if digits.isEmpty then none
        else
          let value : Int := Text.digitsValue digits
          some (some (if negative then -value else value), rest)
      else some (none, c :: rest)

/-- Reads the literal at the start of a text. -/
def scan? (text : Text) : Option (Literal × Text) := do
  let (negative, rest) :=
    match text with
    | '-' :: rest => (true, rest)
    | _ => (false, text)
  let (whole, rest) ← scanWhole? rest
  let (fraction, rest) ← scanFraction? rest
  let (exponent, rest) ← scanExponent? rest
  return (⟨negative, whole, fraction, exponent⟩, rest)

/-! ## Value -/

/-- Appends digits to a significand while it fits into 64 bits; gives the
significand and the number of digits left out. -/
def absorb (significand : Nat) : Text → Nat × Nat
  | [] => (significand, 0)
  | c :: rest =>
      let next := 10 * significand + Text.digitValue c
      if next < Nat.pow 2 64 then absorb next rest else (significand, rest.length + 1)

/-- The double-precision number nearest to a power of ten. -/
def powerOfTen? (exponent : Nat) : Option Binary64 :=
  Binary64.ofDecimal? false 1 exponent

/-- Divides by a power of ten, in steps of at most `10 ^ 308`. -/
def shrink (x : Binary64) (exponent : Nat) : Option Binary64 :=
  if x.isZero then some x
  else if _h : exponent ≤ 308 then (powerOfTen? exponent).bind x.over?
  else ((powerOfTen? 308).bind x.over?).bind fun y => shrink y (exponent - 308)
termination_by exponent

/-- The double-precision number of a significand and a decimal exponent. -/
def scale? (negative : Bool) (significand : Nat) (exponent : Int) : Option Binary64 :=
  (Binary64.nearest? negative significand 1).bind fun x =>
    if exponent < 0 then shrink x exponent.natAbs
    else if x.isZero then some x
    else if 308 < exponent then none
    else (powerOfTen? exponent.natAbs).bind x.times?

/-- The number that a literal denotes; `none` if it is too large. -/
def value? (literal : Literal) : Option Number :=
  let (whole, cut) := absorb 0 literal.whole
  match literal.fraction, literal.exponent with
  | none, none =>
      if cut = 0 && !literal.negative then some (.integer whole)
      else if cut = 0 && whole ≠ 0 && whole ≤ Nat.pow 2 63 then some (.integer (-(whole : Int)))
      else (scale? literal.negative whole cut).map .real
  | fraction, exponent =>
      let digits := fraction.getD []
      let (significand, dropped) := absorb whole digits
      let places : Int := digits.length - dropped
      (scale? literal.negative significand (cut - places + exponent.getD 0)).map .real

end Literal

end Number

end Reshape
