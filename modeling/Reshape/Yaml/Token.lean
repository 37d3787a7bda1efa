import Reshape.Yaml.Scalar

/-!
# YAML tokens

A YAML text as a list of tokens, in which the indentation of blocks has become
brackets: every block collection has a token where it starts and one where it
ends.  A key is recognised by the colon behind it, so the tokens that start a
key are put in front of it once that colon has been found on its line.

Anchors, tags, block scalars and directives are not part of the language that is
read here.
-/

namespace Reshape

namespace Yaml

inductive Token where
  /-- A block sequence starts. -/
  | sequence
  /-- A block mapping starts. -/
  | mapping
  /-- A block collection ends. -/
  | blockEnd
  /-- An entry of a block sequence. -/
  | entry
  /-- A key of a mapping. -/
  | key
  /-- A value of a mapping. -/
  | value
  | openBracket
  | closeBracket
  | openBrace
  | closeBrace
  | comma
  | documentStart
  | documentEnd
  | scalar (plain : Bool) (text : Text)
deriving DecidableEq, Repr

/-- A place where a key may have started. -/
structure PendingKey where
  /-- The number of tokens before it. -/
  index : Nat
  line : Nat
  column : Nat
  offset : Nat
  /-- Nothing but a key can stand there. -/
  required : Bool

/-- The state of the walk over a text. -/
structure Walk where
  cursor : Cursor
  /-- The number of open brackets. -/
  flow : Nat
  /-- The columns of the open blocks, the innermost first. -/
  indents : List Nat
  /-- Whether a key may start at the next token. -/
  keyAllowed : Bool
  /-- The pending key of each bracket level, the innermost first. -/
  pending : List (Option PendingKey)
  tokens : List Token

namespace Walk

def inFlow (walk : Walk) : Bool :=
  walk.flow != 0

def emit (token : Token) (walk : Walk) : Walk :=
  { walk with tokens := walk.tokens ++ [token] }

def allowKey (allowed : Bool) (walk : Walk) : Walk :=
  { walk with keyAllowed := allowed }

def advance (n : Nat) (walk : Walk) : Walk :=
  { walk with cursor := walk.cursor.skip n }

/-- The pending key of the innermost level. -/
def pendingKey (walk : Walk) : Option PendingKey :=
  walk.pending.head?.join

/-- Gives up the pending key, which fails if it has to be a key. -/
def dropKey? (walk : Walk) : Option Walk :=
  if walk.pendingKey.any (·.required) then none
  else some { walk with pending := none :: walk.pending.tail }

/-- Notes that a key may start here. -/
def noteKey? (walk : Walk) : Option Walk :=
  if walk.keyAllowed then
    let cursor := walk.cursor
    let required := !walk.inFlow && walk.indents.head? = some cursor.column
    walk.dropKey?.map fun walk =>
      { walk with
        pending :=
          some ⟨walk.tokens.length, cursor.line, cursor.column, cursor.offset, required⟩ ::
            walk.pending.tail }
  else some walk

/-- A key stands on one line, and its colon at most 1024 bytes behind its start. -/
def isStale (walk : Walk) (key : PendingKey) : Bool :=
  key.line < walk.cursor.line || key.offset + 1024 < walk.cursor.offset

/-- Gives up the pending keys that can no longer be keys. -/
def dropStale? (walk : Walk) : Option Walk :=
  if walk.pending.any fun key => key.any fun key => key.required && walk.isStale key then none
  else
    some { walk with
      pending := walk.pending.map fun key => key.filter fun key => !walk.isStale key }

/-- Opens a block at a column, if it is indented further than the one around it;
the token goes in front of the token with the given index. -/
def indent (column index : Nat) (token : Token) (walk : Walk) : Walk :=
  if walk.inFlow || walk.indents.head?.any (fun i => column ≤ i) then walk
  else
    { walk with
      indents := column :: walk.indents
      tokens := walk.tokens.insertIdx index token }

/-- Closes the blocks that are indented further than a column. -/
def outdent (column : Nat) (walk : Walk) : Walk :=
  if walk.inFlow then walk
  else
    let closed := walk.indents.takeWhile (column < ·)
    { walk with
      indents := walk.indents.drop closed.length
      tokens := walk.tokens ++ closed.map fun _ => .blockEnd }

/-- Closes all blocks. -/
def outdentAll (walk : Walk) : Walk :=
  if walk.inFlow then walk
  else
    { walk with
      indents := []
      tokens := walk.tokens ++ walk.indents.map fun _ => .blockEnd }

/-! ## Tokens one by one -/

/-- Moves over blanks, comments and line ends, and over a byte order mark at the
start of a line, which takes up a column.  A key may start on a new line.  Tabs
may not stand where the indentation counts. -/
def toToken : Nat → Walk → Walk
  | 0, walk => walk
  | fuel + 1, walk =>
      match walk.cursor.rest with
      | ' ' :: _ => toToken fuel (walk.advance 1)
      | '\t' :: _ =>
          if walk.inFlow || !walk.keyAllowed then toToken fuel (walk.advance 1) else walk
      | '#' :: rest => toToken fuel (walk.advance (1 + (rest.takeWhile (!isBreak ·)).length))
      | '\ufeff' :: _ => if walk.cursor.column = 0 then toToken fuel (walk.advance 1) else walk
      | c :: _ =>
          if isBreak c then
            toToken fuel ((walk.advance 1).allowKey (walk.keyAllowed || !walk.inFlow))
          else walk
      | [] => walk

/-- Closes all blocks at the end of a document. -/
def endDocument? (walk : Walk) : Option Walk :=
  walk.outdentAll.dropKey?.map (allowKey false)

def openFlow? (token : Token) (walk : Walk) : Option Walk := do
  let walk ← walk.noteKey?
  return { walk with flow := walk.flow + 1, pending := none :: walk.pending, keyAllowed := true }
    |>.emit token |>.advance 1

def closeFlow? (token : Token) (walk : Walk) : Option Walk := do
  let walk ← walk.dropKey?
  let pending := if walk.inFlow then walk.pending.tail else walk.pending
  return { walk with flow := walk.flow - 1, pending, keyAllowed := false }
    |>.emit token |>.advance 1

def comma? (walk : Walk) : Option Walk := do
  return (← walk.dropKey?).allowKey true |>.emit .comma |>.advance 1

def entry? (walk : Walk) : Option Walk := do
  if !walk.inFlow && !walk.keyAllowed then none
  let walk := walk.indent walk.cursor.column walk.tokens.length .sequence
  return (← walk.dropKey?).allowKey true |>.emit .entry |>.advance 1

/-- A key that is marked by a question mark. -/
def markedKey? (walk : Walk) : Option Walk := do
  if !walk.inFlow && !walk.keyAllowed then none
  let walk := walk.indent walk.cursor.column walk.tokens.length .mapping
  return (← walk.dropKey?).allowKey (!walk.inFlow) |>.emit .key |>.advance 1

/-- A colon: what is pending was a key, or the value has no key of its own. -/
def value? (walk : Walk) : Option Walk :=
  match walk.pendingKey with
  | some key =>
      let walk := { walk with
        pending := none :: walk.pending.tail
        tokens := walk.tokens.insertIdx key.index .key }
      some ((walk.indent key.column key.index .mapping).allowKey false |>.emit .value |>.advance 1)
  | none =>
      if !walk.inFlow && !walk.keyAllowed then none
      else
        let walk := walk.indent walk.cursor.column walk.tokens.length .mapping
        some (walk.allowKey (!walk.inFlow) |>.emit .value |>.advance 1)

def quotedScalar? (single : Bool) (walk : Walk) : Option Walk := do
  let walk ← walk.noteKey?
  let (text, cursor) ← quoted? single (walk.cursor.rest.length + 1) walk.cursor.next
  return { walk with cursor, keyAllowed := false } |>.emit (.scalar false text)

def plainScalar? (walk : Walk) : Option Walk := do
  let walk ← walk.noteKey?
  let fuel := walk.cursor.rest.length + 1
  let (text, cursor, broken) ← plain? walk.inFlow walk.indents.head? fuel walk.cursor
  return { walk with cursor, keyAllowed := broken } |>.emit (.scalar true text)

/-- The characters that cannot start a plain scalar. -/
def isIndicator (c : Char) : Bool :=
  "-?:,[]{}#&*!|>'\"%@`".toList.contains c

/-- Whether a plain scalar can start with `c` before `rest`. -/
def startsPlain (inFlow : Bool) (c : Char) (rest : Text) : Bool :=
  if c = '-' then !startsBlank rest
  else if c = '?' || c = ':' then !inFlow && !startsBlank rest
  else !isIndicator c && !startsBlank [c]

/-- Reads the next token of a text that is not at its end. -/
def token? (walk : Walk) : Option Walk :=
  let cursor := walk.cursor
  if atMarker "---".toList cursor then
    walk.endDocument?.map fun walk => walk.emit .documentStart |>.advance 3
  else if atMarker "...".toList cursor then
    walk.endDocument?.map fun walk => walk.emit .documentEnd |>.advance 3
  else
    match cursor.rest with
    | [] => none
    | c :: rest =>
        if c = '[' then walk.openFlow? .openBracket
        else if c = '{' then walk.openFlow? .openBrace
        else if c = ']' then walk.closeFlow? .closeBracket
        else if c = '}' then walk.closeFlow? .closeBrace
        else if c = ',' then walk.comma?
        else if c = '-' && startsBlank rest then walk.entry?
        else if c = '?' && (walk.inFlow || startsBlank rest) then walk.markedKey?
        else if c = ':' && (walk.inFlow || startsBlank rest) then walk.value?
        else if c = '\'' then walk.quotedScalar? true
        else if c = '"' then walk.quotedScalar? false
        else if startsPlain walk.inFlow c rest then walk.plainScalar?
        else none

/-- Reads all tokens; every token takes a character, so `fuel` larger than the
length of the text is enough. -/
def tokens? : Nat → Walk → Option (List Token)
  | 0, _ => none
  | fuel + 1, walk => do
      let walk ← (walk.toToken (walk.cursor.rest.length + 1)).dropStale?
      let walk := walk.outdent walk.cursor.column
      if walk.cursor.rest.isEmpty then return (← walk.endDocument?).tokens
      tokens? fuel (← walk.token?)

end Walk

/-- A carriage return, a line feed, both together and a next-line character as
one line feed. -/
def unifyLines : Text → Text
  | [] => []
  | '\r' :: '\n' :: rest => '\n' :: unifyLines rest
  | '\r' :: rest => '\n' :: unifyLines rest
  | '\u0085' :: rest => '\n' :: unifyLines rest
  | c :: rest => c :: unifyLines rest

/-- Whether a character may stand in a YAML text. -/
def isAllowed (c : Char) : Bool :=
  let n := c.toNat
  n == 0x09 || n == 0x0A || n == 0x0D || (0x20 ≤ n && n ≤ 0x7E) || n == 0x85 ||
    (0xA0 ≤ n && n ≤ 0xD7FF) || (0xE000 ≤ n && n ≤ 0xFFFD) || 0x10000 ≤ n

/-- The tokens of a text. -/
def tokens? (text : Text) : Option (List Token) :=
  if text.all isAllowed then
    let text := unifyLines text
    Walk.tokens? (text.length + 1) ⟨⟨0, 0, 0, text⟩, 0, [], true, [none], []⟩
  else none

end Yaml

end Reshape
