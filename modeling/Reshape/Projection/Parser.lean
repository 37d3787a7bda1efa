import Reshape.Projection.Error
import Reshape.Projection.Expression
import Reshape.Text.Blank
import Reshape.Text.Digit

/-!
# Reading expressions

The reader walks over the text from left to right and hands on what is left.
A fault names its cause and the text from the place it is about, so its position
is the number of characters before that place.

* A path is a list of segments with dots between them; `#` stands for the items
  of an array and `@name` for a modifier.  In a key, a backslash takes the
  character behind it as it is.
* A literal holds expressions with commas between them, and a comma may follow
  the last.  A member of an object literal may leave out its key, and is then
  called by the last key of the path it starts with.
* Blanks may stand around stages, members and items.
-/

namespace Reshape

namespace Projection

/-- Why a text is no expression. -/
inductive Cause where
  /-- There is no expression at all. -/
  | empty
  | endOfInput
  | unclosedObject
  | unclosedArray
  | unterminatedKey
  /-- The argument of a modifier is not a number below `2 ^ 64`. -/
  | argument (name : Text)
  | unknownModifier (name : Text)
  /-- Something stands behind the expression. -/
  | afterExpression
  /-- No stage starts here. -/
  | notStage
  /-- Neither a comma nor the end of an object literal. -/
  | insideObject
  /-- Neither a comma nor the end of an array literal. -/
  | insideArray
  /-- No colon behind a quoted key. -/
  | notColon
  /-- No segment starts here. -/
  | notSegment
deriving DecidableEq, Repr

/-- A cause and the text from the place that it is about. -/
structure Fault where
  cause : Cause
  rest : Text
deriving DecidableEq, Repr

namespace Fault

/-- The number of characters of `input` before the place of a fault. -/
def position (fault : Fault) (input : Text) : Nat :=
  input.length - fault.rest.length

/-- What stands at the place of a fault. -/
def found (fault : Fault) : Text :=
  match fault.rest with
  | c :: _ => [c]
  | [] => "EOF".toList

/-- The error that a fault in `input` is reported as. -/
def toError (input : Text) (fault : Fault) : Error :=
  let position := fault.position input
  let malformed (message : String) := Error.malformed message.toList position input
  let unexpected (message : String) (expected : List String) :=
    Error.unexpected message.toList position input (expected.map String.toList) fault.found
  match fault.cause with
  | .empty => malformed "Empty projection expression"
  | .endOfInput => malformed "Unexpected end of input"
  | .unclosedObject => malformed "Unclosed object literal"
  | .unclosedArray => malformed "Unclosed array literal"
  | .unterminatedKey => malformed "Unterminated quoted key"
  | .argument name =>
      .malformed ("Modifier @".toList ++ name ++ " expects a numeric argument".toList)
        position input
  | .unknownModifier name => .unknownModifier name position
  | .afterExpression =>
      unexpected "Unexpected character after expression" ["'|'", "end of input"]
  | .notStage => unexpected "Expected a path or a literal" ["path", "'\x7b'", "'['"]
  | .insideObject => unexpected "Unexpected character in object literal" ["','", "'\x7d'"]
  | .insideArray => unexpected "Unexpected character in array literal" ["','", "']'"]
  | .notColon => unexpected "Expected ':'" ["':'"]
  | .notSegment => unexpected "Empty path segment" ["key", "'#'", "modifier"]

end Fault

/-! ## Paths -/

/-- The characters that separate stages, members and items. -/
def isDelimiter (c : Char) : Bool :=
  c == '|' || c == ',' || c == '{' || c == '}' || c == '[' || c == ']'

/-- The characters that end a key unless a backslash stands before them. -/
def endsKey (c : Char) : Bool :=
  c == '.' || c == ':' || c == '"' || isBlank c || isDelimiter c

/-- The key at the start of a text, without its escapes.  A backslash at the end
of the text counts for nothing. -/
def scanKey : Text → Text × Text
  | [] => ([], [])
  | '\\' :: [] => ([], [])
  | '\\' :: c :: rest =>
      let (key, rest) := scanKey rest
      (c :: key, rest)
  | c :: rest =>
      if endsKey c then ([], c :: rest)
      else
        let (key, rest) := scanKey rest
        (c :: key, rest)

/-- The characters of the name of a modifier. -/
def isNameChar (c : Char) : Bool :=
  c.isAlphanum || c == '_'

/-- Reads the modifier behind an `@`; `start` is the text from that character. -/
def modifier (start rest : Text) : Except Fault (Segment × Text) :=
  let (name, rest) := rest.span isNameChar
  let resolve (argument : Option Nat) (rest : Text) : Except Fault (Segment × Text) :=
    match Modifier.ofName? name argument with
    | some modifier => .ok (.modifier modifier, rest)
    | none => .error ⟨.unknownModifier name, start⟩
  match rest with
  | ':' :: rest =>
      let (digits, rest) := rest.span Char.isDigit
      match Text.word? digits with
      | some levels => resolve (some levels) rest
      | none => .error ⟨.argument name, rest⟩
  | rest => resolve none rest

/-- Reads a segment.  A key that reads `#` stands for the items of an array,
even if it was written with a backslash. -/
def segment (text : Text) : Except Fault (Segment × Text) :=
  match text with
  | '@' :: rest => modifier text rest
  | text =>
      let (key, rest) := scanKey text
      if key.isEmpty then .error ⟨.notSegment, rest⟩
      else if key = ['#'] then .ok (.each, rest)
      else .ok (.key key, rest)

/-- Reads a path.  A segment has at least one character, so `fuel` larger than
the length of the text is enough. -/
def path : Nat → Text → Except Fault (List Segment × Text)
  | 0, text => .error ⟨.endOfInput, text⟩
  | fuel + 1, text => do
      let (first, rest) ← segment text
      match rest with
      | '.' :: rest =>
          let (others, rest) ← path fuel rest
          return (first :: others, rest)
      | rest => return ([first], rest)

/-! ## Keys of members -/

/-- The characters that a key without quotes cannot hold. -/
def endsBareKey (c : Char) : Bool :=
  isDelimiter c || c == '.'

/-- The text up to the next colon, if it can be a key, and the text behind the
colon. -/
def scanBareKey? : Text → Option (Text × Text)
  | [] => none
  | c :: rest =>
      if c = ':' then some ([], rest)
      else if endsBareKey c then none
      else (scanBareKey? rest).map fun (raw, rest) => (c :: raw, rest)

/-- The text up to the closing quote, without its escapes, and the text behind
the quote. -/
def scanQuoted? : Text → Option (Text × Text)
  | [] => none
  | '"' :: rest => some ([], rest)
  | '\\' :: [] => none
  | '\\' :: c :: rest => (scanQuoted? rest).map fun (key, rest) => (c :: key, rest)
  | c :: rest => (scanQuoted? rest).map fun (key, rest) => (c :: key, rest)

/-- Reads the key of a member and its colon, if there is one. -/
def memberKey (text : Text) : Except Fault (Option Text × Text) :=
  match text with
  | '"' :: rest =>
      match scanQuoted? rest with
      | none => .error ⟨.unterminatedKey, text⟩
      | some (key, rest) =>
          match rest.skipBlanks with
          | ':' :: rest => .ok (some key, rest)
          | rest => .error ⟨.notColon, rest⟩
  | text =>
      match scanBareKey? text with
      | none => .ok (none, text)
      | some (raw, rest) =>
          let key := raw.trim
          if key.isEmpty || key.head? = some '@' then .ok (none, text)
          else .ok (some key, rest)

/-- The key of a member that is written without one. -/
def implicitKey (value : Expression) : Text :=
  let named (segments : List Segment) : Option Text :=
    segments.reverse.findSome? fun
      | .key name => some name
      | _ => none
  match value with
  | .path segments :: _ => (named segments).getD ['_']
  | _ => ['_']

/-! ## Stages and expressions -/

mutual

/-- Reads an expression and the blanks behind it.  Of three calls inside each
other at least one consumes a character, so `fuel` of three times the length of
the text and two more is enough. -/
def expression : Nat → Text → Except Fault (Expression × Text)
  | 0, text => .error ⟨.endOfInput, text⟩
  | fuel + 1, text => do
      let (first, rest) ← stage fuel text
      let (others, rest) ← pipeline fuel rest
      return (first :: others, rest)

/-- Reads the stages behind the first, each with the bar before it. -/
def pipeline : Nat → Text → Except Fault (List Stage × Text)
  | 0, text => .error ⟨.endOfInput, text⟩
  | fuel + 1, text =>
      match text.skipBlanks with
      | '|' :: rest => do
          let (first, rest) ← stage fuel rest
          let (others, rest) ← pipeline fuel rest
          return (first :: others, rest)
      | rest => return ([], rest)

/-- Reads a stage. -/
def stage : Nat → Text → Except Fault (Stage × Text)
  | 0, text => .error ⟨.endOfInput, text⟩
  | fuel + 1, text =>
      match text.skipBlanks with
      | [] => .error ⟨.endOfInput, []⟩
      | '{' :: rest => do
          let (members, rest) ← members fuel ('{' :: rest) rest
          return (.object members, rest)
      | '[' :: rest => do
          let (items, rest) ← items fuel ('[' :: rest) rest
          return (.array items, rest)
      | c :: rest =>
          if isDelimiter c then .error ⟨.notStage, c :: rest⟩
          else do
            let (segments, rest) ← path fuel (c :: rest)
            return (.path segments, rest)

/-- Reads the members of an object literal up to its end; `opened` is the text
from the start of the literal. -/
def members : Nat → Text → Text → Except Fault (List (Text × List Stage) × Text)
  | 0, _, text => .error ⟨.endOfInput, text⟩
  | fuel + 1, opened, text =>
      match text.skipBlanks with
      | [] => .error ⟨.unclosedObject, opened⟩
      | '}' :: rest => return ([], rest)
      | text => do
          let (key, rest) ← memberKey text
          let (value, rest) ← expression fuel rest
          let member := (key.getD (implicitKey value), value)
          match rest.skipBlanks with
          | [] => .error ⟨.unclosedObject, opened⟩
          | ',' :: rest =>
              let (others, rest) ← members fuel opened rest
              return (member :: others, rest)
          | '}' :: rest => return ([member], rest)
          | rest => .error ⟨.insideObject, rest⟩

/-- Reads the items of an array literal up to its end; `opened` is the text from
the start of the literal. -/
def items : Nat → Text → Text → Except Fault (List (List Stage) × Text)
  | 0, _, text => .error ⟨.endOfInput, text⟩
  | fuel + 1, opened, text =>
      match text.skipBlanks with
      | [] => .error ⟨.unclosedArray, opened⟩
      | ']' :: rest => return ([], rest)
      | text => do
          let (item, rest) ← expression fuel text
          match rest.skipBlanks with
          | [] => .error ⟨.unclosedArray, opened⟩
          | ',' :: rest =>
              let (others, rest) ← items fuel opened rest
              return (item :: others, rest)
          | ']' :: rest => return ([item], rest)
          | rest => .error ⟨.insideArray, rest⟩

end

/-- Reads a whole text as one expression. -/
def read (text : Text) : Except Fault Expression :=
  if text.isAllBlank then .error ⟨.empty, text⟩
  else do
    let (expression, rest) ← expression (3 * text.length + 2) text
    match rest.skipBlanks with
    | [] => return expression
    | rest => .error ⟨.afterExpression, rest⟩

/-- Reads a whole text as one expression, and reports what is wrong with it. -/
def parse (text : Text) : Except Error Expression :=
  (read text).mapError (Fault.toError text)

end Projection

end Reshape
