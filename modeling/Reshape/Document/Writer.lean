import Reshape.Document.Basic
import Reshape.Text.Digit

/-!
# Compact JSON text

The text of a document without any space.  In strings the quote, the backslash
and the control characters are escaped, by a letter where there is one and by
four hexadecimal digits otherwise; all other characters stand for themselves.
-/

namespace Reshape

namespace Document

/-- The text of one character inside a string. -/
def escapeChar (c : Char) : Text :=
  match c with
  | '"' => ['\\', '"']
  | '\\' => ['\\', '\\']
  | '\x08' => ['\\', 'b']
  | '\x0c' => ['\\', 'f']
  | '\n' => ['\\', 'n']
  | '\r' => ['\\', 'r']
  | '\t' => ['\\', 't']
  | c =>
      if c.toNat < 0x20 then
        ['\\', 'u', '0', '0', Text.hexDigit (c.toNat / 16), Text.hexDigit (c.toNat % 16)]
      else [c]

/-- A string in quotes. -/
def quote (text : Text) : Text :=
  '"' :: text.flatMap escapeChar ++ ['"']

mutual

/-- The compact text of a document. -/
def write : Document → Text
  | .null => "null".toList
  | .bool true => "true".toList
  | .bool false => "false".toList
  | .number n => n.text
  | .string text => quote text
  | .array items => '[' :: Text.join [','] (writeItems items) ++ [']']
  | .object members => '{' :: Text.join [','] (writeMembers members) ++ ['}']

/-- The texts of the items of an array. -/
def writeItems : List Document → List Text
  | [] => []
  | item :: rest => item.write :: writeItems rest

/-- The texts of the members of an object. -/
def writeMembers : List (Text × Document) → List Text
  | [] => []
  | (key, value) :: rest => (quote key ++ ':' :: value.write) :: writeMembers rest

end

end Document

end Reshape
