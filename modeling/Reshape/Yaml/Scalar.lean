import Reshape.Text.Digit

/-!
# YAML scalars

The words of a YAML text: plain ones, which end where the text around them goes
on, and quoted ones.  A scalar may go on over several lines; a single line feed
in it is read as a space, and of several line breaks the first is dropped if it
is a line feed.  The line and paragraph separators are line breaks too, but
always stand for themselves.
-/

namespace Reshape

namespace Yaml

/-- Whether a character ends a line: a line feed, or the line or paragraph
separator. -/
def isBreak (c : Char) : Bool :=
  c == '\n' || c == '\u2028' || c == '\u2029'

/-- A place in a text: its line, its column, the number of bytes before it, and
the text from there on. -/
structure Cursor where
  line : Nat
  column : Nat
  offset : Nat
  rest : Text

namespace Cursor

/-- Moves over one character. -/
def next (cursor : Cursor) : Cursor :=
  match cursor.rest with
  | [] => cursor
  | c :: rest =>
      let offset := cursor.offset + c.utf8Size
      if isBreak c then ⟨cursor.line + 1, 0, offset, rest⟩
      else ⟨cursor.line, cursor.column + 1, offset, rest⟩

/-- Moves over `n` characters. -/
def skip (n : Nat) (cursor : Cursor) : Cursor :=
  Nat.repeat next n cursor

end Cursor

def isSpaceOrTab (c : Char) : Bool :=
  c == ' ' || c == '\t'

/-- Whether a text starts with a blank or a line end, or is empty. -/
def startsBlank : Text → Bool
  | [] => true
  | c :: _ => isSpaceOrTab c || isBreak c

/-- Whether a document marker starts at a place. -/
def atMarker (mark : Text) (cursor : Cursor) : Bool :=
  cursor.column == 0 &&
    match Text.after? mark cursor.rest with
    | some rest => startsBlank rest
    | none => false

/-- Whether a line starts that ends a document or starts one. -/
def atDocumentMark (cursor : Cursor) : Bool :=
  atMarker "---".toList cursor || atMarker "...".toList cursor

/-- A run of blanks and line breaks inside a scalar: the blanks before the first
break, the breaks, and the place behind the run. -/
structure Gap where
  blanks : Text
  breaks : Text
  cursor : Cursor

/-- Reads a run of blanks and line breaks; `fuel` bounds its length. -/
def gap : Nat → Cursor → Gap
  | 0, cursor => ⟨[], [], cursor⟩
  | fuel + 1, cursor =>
      match cursor.rest with
      | [] => ⟨[], [], cursor⟩
      | c :: _ =>
          if isBreak c then
            let more := gap fuel cursor.next
            ⟨[], c :: more.breaks, more.cursor⟩
          else if isSpaceOrTab c then
            let more := gap fuel cursor.next
            ⟨c :: more.blanks, more.breaks, more.cursor⟩
          else ⟨[], [], cursor⟩

/-- Whether a tab stands in the first `width` columns of a line that a run of
blanks and line breaks leads to. -/
def indentedByTab (width : Nat) (started : Bool) (column : Nat) : Text → Bool
  | ' ' :: rest => indentedByTab width started (column + 1) rest
  | '\t' :: rest => (started && column < width) || indentedByTab width started (column + 1) rest
  | c :: rest => isBreak c && indentedByTab width true 0 rest
  | [] => false

/-- What a run of blanks and line breaks is read as. -/
def Gap.folded (g : Gap) : Text :=
  match g.breaks with
  | [] => g.blanks
  | ['\n'] => [' ']
  | '\n' :: more => more
  | breaks => breaks

/-! ## Plain scalars -/

/-- The characters that end a plain scalar inside brackets. -/
def isFlowIndicator (c : Char) : Bool :=
  c == ',' || c == '[' || c == ']' || c == '{' || c == '}'

/-- Reads the characters of a plain scalar up to a blank, a line end, or the
text that goes on around it.  Inside brackets a colon may not stand before an
indicator. -/
def plainWord? (inFlow : Bool) : Nat → Cursor → Option (Text × Cursor)
  | 0, cursor => some ([], cursor)
  | fuel + 1, cursor =>
      match cursor.rest with
      | [] => some ([], cursor)
      | c :: rest =>
          if startsBlank (c :: rest) then some ([], cursor)
          else if inFlow && c = ':' && rest.head?.any (fun d => isFlowIndicator d || d == '?') then
            none
          else if (c = ':' && startsBlank rest) || (inFlow && isFlowIndicator c) then
            some ([], cursor)
          else
            (plainWord? inFlow fuel cursor.next).map fun (word, cursor) => (c :: word, cursor)

/-- Reads a plain scalar.  Outside of brackets it goes on only on lines that are
indented further than the block around it, and nowhere by tabs.  Gives the text,
the place behind it, and whether a line break was passed behind its last word. -/
def plain? (inFlow : Bool) (indent : Option Nat) :
    Nat → Cursor → Option (Text × Cursor × Bool)
  | 0, cursor => some ([], cursor, false)
  | fuel + 1, cursor => do
      let (word, behind) ← plainWord? inFlow fuel cursor
      if !startsBlank behind.rest || behind.rest.isEmpty then return (word, behind, false)
      if indentedByTab ((indent.map (· + 1)).getD 0) false 0 behind.rest then none
      let g := gap fuel behind
      let broken := !g.breaks.isEmpty
      let outdented := !inFlow && indent.any (fun i => g.cursor.column ≤ i)
      let stops :=
        match g.cursor.rest with
        | [] => true
        | '#' :: _ => true
        | ':' :: rest => startsBlank rest
        | c :: _ => inFlow && isFlowIndicator c
      if outdented || stops || atDocumentMark g.cursor then return (word, g.cursor, broken)
      let (more, cursor, broken) ← plain? inFlow indent fuel g.cursor
      return (word ++ g.folded ++ more, cursor, broken)

/-! ## Quoted scalars -/

/-- The character that a backslash and a letter stand for. -/
def shortEscape? : Char → Option Char
  | '0' => some '\x00'
  | 'a' => some '\x07'
  | 'b' => some '\x08'
  | 't' => some '\t'
  | '\t' => some '\t'
  | 'n' => some '\n'
  | 'v' => some '\x0b'
  | 'f' => some '\x0c'
  | 'r' => some '\r'
  | 'e' => some '\x1b'
  | ' ' => some ' '
  | '"' => some '"'
  | '/' => some '/'
  | '\\' => some '\\'
  | 'N' => some '\u0085'
  | '_' => some '\u00a0'
  | 'L' => some '\u2028'
  | 'P' => some '\u2029'
  | _ => none

/-- The number of hexadecimal digits behind a backslash and a letter. -/
def longEscape? : Char → Option Nat
  | 'x' => some 2
  | 'u' => some 4
  | 'U' => some 8
  | _ => none

/-- The character with the code of exactly `width` hexadecimal digits. -/
def codeChar? (width : Nat) (digits : Text) : Option Char := do
  let values ← (digits.take width).mapM Text.hexValue?
  if values.length < width then none
  else
    let code := values.foldl (fun n v => 16 * n + v) 0
    if h : code.isValidChar then some (Char.ofNatAux code h) else none

/-- Reads a quoted scalar behind its opening quote.  Between single quotes a
quote is written twice; between double quotes a backslash starts an escape, and
before a line end it joins the lines. -/
def quoted? (single : Bool) : Nat → Cursor → Option (Text × Cursor)
  | 0, _ => none
  | fuel + 1, cursor =>
      let go (read : Text) (cursor : Cursor) : Option (Text × Cursor) :=
        (quoted? single fuel cursor).map fun (text, cursor) => (read ++ text, cursor)
      if atDocumentMark cursor then none
      else
        match cursor.rest with
        | [] => none
        | c :: rest =>
            if single && c = '\'' then
              if rest.head? = some '\'' then go ['\''] (cursor.skip 2)
              else some ([], cursor.next)
            else if !single && c = '"' then some ([], cursor.next)
            else if !single && c = '\\' then
              match rest with
              | [] => none
              | e :: digits =>
                  if isBreak e then
                    let g := gap fuel (cursor.skip 2)
                    go g.breaks g.cursor
                  else
                    match longEscape? e with
                    | some width =>
                        (codeChar? width digits).bind fun c => go [c] (cursor.skip (2 + width))
                    | none => (shortEscape? e).bind fun c => go [c] (cursor.skip 2)
            else if startsBlank (c :: rest) then
              let g := gap fuel cursor
              go g.folded g.cursor
            else go [c] cursor.next

end Yaml

end Reshape
