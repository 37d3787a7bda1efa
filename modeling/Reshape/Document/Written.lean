import Reshape.Document.Basic
import Reshape.Number.Literal
import Reshape.Text.Digit

/-!
# JSON as written

The first half of reading JSON: a text that follows the grammar is taken apart
into a `Written`, in which numbers are still literals, objects still hold every
member that was written, and a string that names half of a surrogate pair is
still there, without a content.  What such a text means is decided later, and
differently for a whole document and for a record with known fields.
-/

namespace Reshape

/-- A JSON text that follows the grammar.  A string has no content if it holds
an unpaired surrogate. -/
inductive Written where
  | null
  | bool (value : Bool)
  | number (literal : Number.Literal)
  | string (content : Option Text)
  | array (items : List Written)
  | object (members : List (Option Text × Written))

instance : Inhabited Written := ⟨.null⟩

namespace Written

/-- The four characters that may stand between the parts of a JSON text. -/
def isSpace (c : Char) : Bool :=
  c == ' ' || c == '\t' || c == '\n' || c == '\r'

def skipSpace (text : Text) : Text :=
  text.dropWhile isSpace

/-! ## Strings -/

/-- The value of four hexadecimal digits. -/
def hexUnit? (a b c d : Char) : Option Nat := do
  let a ← Text.hexValue? a
  let b ← Text.hexValue? b
  let c ← Text.hexValue? c
  let d ← Text.hexValue? d
  return ((a * 16 + b) * 16 + c) * 16 + d

/-- The code point that a backslash and a letter stand for. -/
def shortEscape? : Char → Option Nat
  | '"' => some 0x22
  | '\\' => some 0x5C
  | '/' => some 0x2F
  | 'b' => some 0x08
  | 'f' => some 0x0C
  | 'n' => some 0x0A
  | 'r' => some 0x0D
  | 't' => some 0x09
  | _ => none

/-- The code points and code units of a string whose opening quote has been
read, and the text behind its closing quote.  Control characters have to be
escaped. -/
def scanString? : Text → Option (List Nat × Text)
  | [] => none
  | '"' :: rest => some ([], rest)
  | '\\' :: 'u' :: a :: b :: c :: d :: rest => do
      let unit ← hexUnit? a b c d
      let (units, rest) ← scanString? rest
      return (unit :: units, rest)
  | '\\' :: c :: rest => do
      let code ← shortEscape? c
      let (units, rest) ← scanString? rest
      return (code :: units, rest)
  | c :: rest =>
      if c.toNat < 0x20 || c = '\\' then none
      else do
        let (units, rest) ← scanString? rest
        return (c.toNat :: units, rest)

/-- The text of a string: two surrogates in the right order form one character,
and a surrogate alone forms none. -/
def decodeUnits? : List Nat → Option Text
  | [] => some []
  | unit :: rest =>
      if 0xD800 ≤ unit && unit ≤ 0xDBFF then
        match rest with
        | [] => none
        | low :: rest =>
            if 0xDC00 ≤ low && low ≤ 0xDFFF then
              (decodeUnits? rest).map
                (Char.ofNat (0x10000 + (unit - 0xD800) * 0x400 + (low - 0xDC00)) :: ·)
            else none
      else if 0xDC00 ≤ unit && unit ≤ 0xDFFF then none
      else (decodeUnits? rest).map (Char.ofNat unit :: ·)

/-! ## Values -/

mutual

/-- Reads the value at the start of a text.  Each step of the recursion consumes
a character, so `fuel` larger than the length of the text is enough. -/
def scan? : Nat → Text → Option (Written × Text)
  | 0, _ => none
  | fuel + 1, text =>
      match skipSpace text with
      | 'n' :: 'u' :: 'l' :: 'l' :: rest => some (.null, rest)
      | 't' :: 'r' :: 'u' :: 'e' :: rest => some (.bool true, rest)
      | 'f' :: 'a' :: 'l' :: 's' :: 'e' :: rest => some (.bool false, rest)
      | '"' :: rest =>
          (scanString? rest).map fun (units, rest) => (.string (decodeUnits? units), rest)
      | '[' :: rest =>
          match skipSpace rest with
          | ']' :: rest => some (.array [], rest)
          | rest => (scanItems? fuel rest).map fun (items, rest) => (.array items, rest)
      | '{' :: rest =>
          match skipSpace rest with
          | '}' :: rest => some (.object [], rest)
          | rest => (scanMembers? fuel rest).map fun (members, rest) => (.object members, rest)
      | rest => (Number.Literal.scan? rest).map fun (literal, rest) => (.number literal, rest)

/-- Reads items up to the end of the array. -/
def scanItems? : Nat → Text → Option (List Written × Text)
  | 0, _ => none
  | fuel + 1, text => do
      let (item, rest) ← scan? fuel text
      match skipSpace rest with
      | ',' :: rest =>
          let (items, rest) ← scanItems? fuel rest
          return (item :: items, rest)
      | ']' :: rest => return ([item], rest)
      | _ => none

/-- Reads members up to the end of the object. -/
def scanMembers? : Nat → Text → Option (List (Option Text × Written) × Text)
  | 0, _ => none
  | fuel + 1, text =>
      match skipSpace text with
      | '"' :: rest => do
          let (units, rest) ← scanString? rest
          match skipSpace rest with
          | ':' :: rest =>
              let (value, rest) ← scan? fuel rest
              let member := (decodeUnits? units, value)
              match skipSpace rest with
              | ',' :: rest =>
                  let (members, rest) ← scanMembers? fuel rest
                  return (member :: members, rest)
              | '}' :: rest => return ([member], rest)
              | _ => none
          | _ => none
      | _ => none

end

/-- Takes a whole JSON text apart. -/
def read? (text : Text) : Option Written :=
  match scan? (text.length + 1) text with
  | some (written, rest) => if (skipSpace rest).isEmpty then some written else none
  | none => none

/-! ## The document -/

mutual

/-- The document of a text in which `levels` arrays and objects may be nested.
A repeated key keeps its first place and takes its last value. -/
def document? : Nat → Written → Option Document
  | _, .null => some .null
  | _, .bool value => some (.bool value)
  | _, .number literal => literal.value?.map .number
  | _, .string content => content.map .string
  | levels, .array items =>
      if levels = 0 then none else (documents? (levels - 1) items).map .array
  | levels, .object members =>
      if levels = 0 then none
      else (pairs? (levels - 1) members).map fun pairs => .object (Members.ofList pairs)

/-- The documents of the items of an array. -/
def documents? : Nat → List Written → Option (List Document)
  | _, [] => some []
  | levels, item :: rest => do
      let item ← document? levels item
      let rest ← documents? levels rest
      return item :: rest

/-- The keys and documents of the members of an object. -/
def pairs? : Nat → List (Option Text × Written) → Option (List (Text × Document))
  | _, [] => some []
  | levels, (key, value) :: rest => do
      let key ← key
      let value ← document? levels value
      let rest ← pairs? levels rest
      return (key, value) :: rest

end

end Written

namespace Document

/-- Arrays and objects may be nested this deep in a JSON text. -/
def nestingLimit : Nat := 127

/-- Reads a JSON text. -/
def read? (text : Text) : Option Document :=
  (Written.read? text).bind (Written.document? nestingLimit)

/-- Reads the bytes of a JSON text in UTF-8. -/
def ofBytes? (bytes : ByteArray) : Option Document :=
  (String.fromUTF8? bytes).bind fun text => read? text.toList

end Document

end Reshape
