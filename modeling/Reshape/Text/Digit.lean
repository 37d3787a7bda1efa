import Reshape.Text.Basic

/-!
# Digits

The values of decimal and hexadecimal digits, and of runs of decimal digits.
-/

namespace Reshape

namespace Text

/-- The value of a decimal digit. -/
def digitValue (c : Char) : Nat :=
  c.toNat - '0'.toNat

/-- The value of a run of decimal digits. -/
def digitsValue (digits : Text) : Nat :=
  digits.foldl (fun value c => 10 * value + digitValue c) 0

/-- The value of a text that is a nonempty run of decimal digits, if it is below
`2 ^ 64`. -/
def word? (text : Text) : Option Nat :=
  if text.isEmpty || !text.all Char.isDigit then none
  else if digitsValue text < Nat.pow 2 64 then some (digitsValue text)
  else none

/-- A hexadecimal digit in lower case. -/
def hexDigit (n : Nat) : Char :=
  Char.ofNat (if n < 10 then '0'.toNat + n else 'a'.toNat + (n - 10))

/-- The value of a hexadecimal digit in either case. -/
def hexValue? (c : Char) : Option Nat :=
  if c.isDigit then some (digitValue c)
  else if 'a' ≤ c && c ≤ 'f' then some (c.toNat - 'a'.toNat + 10)
  else if 'A' ≤ c && c ≤ 'F' then some (c.toNat - 'A'.toNat + 10)
  else none

end Text

end Reshape
