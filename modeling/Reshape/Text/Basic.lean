/-!
# Text

A text is the list of its characters, so that cutting and joining text is a
matter of lists.  This module holds the cuts that paths, rules and expressions
need: splitting at a character, searching for a piece, trimming, lines, and
equality up to the case of ASCII letters.
-/

namespace Reshape

/-- A text, as the list of its characters. -/
abbrev Text := List Char

namespace Text

/-- The pieces of a text between the occurrences of `sep`.  There is always at
least one piece. -/
def split (sep : Char) : Text → List Text
  | [] => [[]]
  | c :: rest =>
      if c = sep then [] :: split sep rest
      else
        match split sep rest with
        | [] => [[c]]
        | piece :: pieces => (c :: piece) :: pieces

/-- Puts `sep` between neighbouring pieces. -/
def join (sep : Text) : List Text → Text
  | [] => []
  | [piece] => piece
  | piece :: pieces => piece ++ sep ++ join sep pieces

/-- Drops the leading characters that satisfy `p`. -/
def trimStart (p : Char → Bool) (text : Text) : Text :=
  text.dropWhile p

/-- Drops the trailing characters that satisfy `p`. -/
def trimEnd (p : Char → Bool) (text : Text) : Text :=
  (text.reverse.dropWhile p).reverse

/-- Drops the characters that satisfy `p` from both ends. -/
def trimBoth (p : Char → Bool) (text : Text) : Text :=
  trimEnd p (trimStart p text)

/-- What is left of a text after `start`, if it begins with it. -/
def after? (start text : Text) : Option Text :=
  start.isPrefixOf? text

/-- The text before and the text after the first occurrence of `piece`. -/
def cutAt? (piece : Text) : Text → Option (Text × Text)
  | [] => if piece.isEmpty then some ([], []) else none
  | c :: rest =>
      match after? piece (c :: rest) with
      | some tail => some ([], tail)
      | none => (cutAt? piece rest).map fun (head, tail) => (c :: head, tail)

/-- Walks over a text and leaves out every occurrence of `piece`; `skip` counts
the characters of an occurrence that are still to be passed over. -/
def eraseFrom (piece : Text) (skip : Nat) : Text → Text
  | [] => []
  | c :: rest =>
      match skip with
      | skip + 1 => eraseFrom piece skip rest
      | 0 =>
          if piece.isPrefixOf (c :: rest) then eraseFrom piece (piece.length - 1) rest
          else c :: eraseFrom piece 0 rest

/-- Removes every occurrence of a nonempty `piece`, scanning from the left. -/
def erase (piece text : Text) : Text :=
  eraseFrom piece 0 text

/-- One line without its line end: a carriage return before the line feed
belongs to the line end. -/
def chopReturn (line : Text) : Text :=
  if line.getLast? = some '\r' then line.dropLast else line

/-- The lines of a text.  A line feed ends a line, together with one carriage
return before it; a carriage return elsewhere is an ordinary character.  The
last line needs no line feed, and then keeps its carriage return. -/
def lines (text : Text) : List Text :=
  match (split '\n' text).reverse with
  | [] => []
  | last :: ended =>
      let ended := ended.reverse.map chopReturn
      if last.isEmpty then ended else ended ++ [last]

/-- The text with its ASCII capitals lowered. -/
def foldCase (text : Text) : Text :=
  text.map Char.toLower

/-- Equality up to the case of ASCII letters. -/
def sameLetters (left right : Text) : Bool :=
  foldCase left == foldCase right

/-- Whether a text comes before another one or is equal to it, by the numbers of
their characters. -/
def le : Text → Text → Bool
  | [], _ => true
  | _ :: _, [] => false
  | c :: left, d :: right => c.toNat < d.toNat || (c == d && le left right)

/-- The number of bytes of a text in UTF-8. -/
def byteSize (text : Text) : Nat :=
  text.foldr (fun c size => c.utf8Size + size) 0

/-- Decimal digits of a natural number. -/
def ofNat (n : Nat) : Text :=
  Nat.toDigits 10 n

end Text

end Reshape
