import Reshape.Number.Shortest
import Reshape.Text.Blank
import Reshape.Text.Digit

/-!
# Numbers

A number of a document is an integer or a double-precision number; the two stay
apart, so `1` and `1.0` are different numbers.  This module gives the text of a
number, and the number that a text stands for when it is asked to be one.
-/

namespace Reshape

/-- A number of a document. -/
inductive Number where
  | integer (value : Int)
  | real (value : Binary64)
deriving DecidableEq, Repr

namespace Number

/-- Integers from `-2 ^ 63` to `2 ^ 64 - 1` are kept exact. -/
def inRange (n : Int) : Bool :=
  -(Nat.pow 2 63 : Int) ≤ n && n < (Nat.pow 2 64 : Int)

def isZero : Number → Bool
  | .integer n => n == 0
  | .real x => x.isZero

/-! ## Text -/

/-- The text of an integer. -/
def integerText (n : Int) : Text :=
  if n < 0 then '-' :: Text.ofNat n.natAbs else Text.ofNat n.natAbs

/-- Decimals whose leading digit has an exponent from `-5` to `15` are written
without an exponent. -/
def isPositional (leading : Int) : Bool :=
  -5 ≤ leading && leading ≤ 15

/-- Positional text, with at least one digit on each side of the point. -/
def positionalText (digits : Text) (leading : Int) : Text :=
  if leading < 0 then
    "0.".toList ++ List.replicate ((-leading).toNat - 1) '0' ++ digits
  else
    let whole := leading.toNat + 1
    if digits.length ≤ whole then
      digits ++ List.replicate (whole - digits.length) '0' ++ ".0".toList
    else digits.take whole ++ '.' :: digits.drop whole

/-- Text with an exponent, whose sign is always written. -/
def scientificText (digits : Text) (leading : Int) : Text :=
  let tail := digits.drop 1
  digits.take 1 ++ (if tail.isEmpty then [] else '.' :: tail) ++
    (if leading < 0 then "e-".toList else "e+".toList) ++ Text.ofNat leading.natAbs

/-- The shortest text of a double-precision number that reads back as it. -/
def realText (x : Binary64) : Text :=
  let d := x.shortest
  let body :=
    if isPositional d.leadingExponent then positionalText d.digits d.leadingExponent
    else scientificText d.digits d.leadingExponent
  if x.negative then '-' :: body else body

/-- The text of a number. -/
def text : Number → Text
  | .integer n => integerText n
  | .real x => realText x

/-! ## Reading -/

/-- The digits at the start of a text, and the rest. -/
def spanDigits (text : Text) : Text × Text :=
  text.span Char.isDigit

/-- A sign at the start of a text, and the rest. -/
def spanSign : Text → Bool × Text
  | '-' :: rest => (true, rest)
  | '+' :: rest => (false, rest)
  | text => (false, text)

/-- The exponent at the end of a decimal: nothing, or `e`, a sign if any, and
digits. -/
def exponentPart? : Text → Option Int
  | [] => some 0
  | c :: rest =>
      if c = 'e' || c = 'E' then
        let (negative, digits) := spanSign rest
        if digits.isEmpty || !digits.all Char.isDigit then none
        else some (if negative then -(Text.digitsValue digits : Int) else Text.digitsValue digits)
      else none

/-- The number that a decimal stands for: an integer in range if it is written
as one, else the nearest double-precision number.  A sign may lead, and digits
may be missing on one side of the point. -/
def ofDecimalText? (text : Text) : Option Number :=
  let (negative, body) := spanSign text
  let (whole, rest) := spanDigits body
  let value : Int := if negative then -(Text.digitsValue whole : Int) else Text.digitsValue whole
  if rest.isEmpty && !whole.isEmpty && inRange value then some (.integer value)
  else
    let (fraction, tail) :=
      match rest with
      | '.' :: rest => spanDigits rest
      | _ => ([], rest)
    if whole.isEmpty && fraction.isEmpty then none
    else
      (exponentPart? tail).bind fun exponent =>
        (Binary64.ofDecimal? negative (Text.digitsValue (whole ++ fraction))
          (exponent - fraction.length)).map .real

/-- The number that a text stands for, and zero if it stands for none.  Blanks
around it do not count. -/
def ofText (text : Text) : Number :=
  (ofDecimalText? text.trim).getD (.integer 0)

end Number

end Reshape
