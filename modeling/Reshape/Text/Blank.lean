import Reshape.Text.Basic

/-!
# Blank characters

The characters with the Unicode property `White_Space`.  All trimming, and all
skipping of space between the parts of an expression, uses this class.
-/

namespace Reshape

/-- Whether a character has the property `White_Space`. -/
def isBlank (c : Char) : Bool :=
  let n := c.toNat
  (9 ≤ n && n ≤ 13) || n == 0x20 || n == 0x85 || n == 0xA0 || n == 0x1680 ||
    (0x2000 ≤ n && n ≤ 0x200A) || n == 0x2028 || n == 0x2029 || n == 0x202F ||
    n == 0x205F || n == 0x3000

namespace Text

/-- The text without the blanks around it. -/
def trim (text : Text) : Text :=
  trimBoth isBlank text

/-- The text from its first character that is not blank. -/
def skipBlanks (text : Text) : Text :=
  trimStart isBlank text

/-- Whether a text holds nothing but blanks. -/
def isAllBlank (text : Text) : Bool :=
  text.all isBlank

end Text

end Reshape
