import Reshape.Text.LetterTable

/-!
# Letters

Full case mapping of characters and texts.  A character maps to a text, since
some letters change into several: `ß` becomes `SS`, and `İ` becomes an `i` with
a dot above.  Only the capital sigma looks at its surroundings: at the end of a
word it becomes `ς`, elsewhere `σ`.
-/

namespace Reshape

namespace Letter

/-- The character that the runs give for `c`, or `c` itself. -/
def shiftBy (runs : List Run) (c : Char) : Char :=
  match runs.find? (·.covers c.toNat) with
  | some run => Char.ofNat (Int.toNat (c.toNat + run.shift))
  | none => c

/-- Lower case of a character, whatever stands around it. -/
def lower (c : Char) : Text :=
  if c.toNat < 0x80 then [c.toLower]
  else if c = 'İ' then ['i', '\u0307']
  else [shiftBy loweringRuns c]

/-- Upper case of a character. -/
def upper (c : Char) : Text :=
  if c.toNat < 0x80 then [c.toUpper]
  else
    match raisedSequences.lookup c.toNat with
    | some codes => codes.map Char.ofNat
    | none => [shiftBy raisingRuns c]

/-- Whether a code point lies in one of the ranges. -/
def within (ranges : List (Nat × Nat)) (c : Char) : Bool :=
  ranges.any fun (first, last) => first ≤ c.toNat && c.toNat ≤ last

/-- Whether a character is a letter with a case. -/
def isCased (c : Char) : Bool :=
  within casedRanges c

/-- Whether a character is passed over when looking for a neighbouring letter. -/
def isCaseIgnorable (c : Char) : Bool :=
  within caseIgnorableRanges c

/-- Whether the first character of a text that is not passed over is a letter
with a case. -/
def meetsCased (text : Text) : Bool :=
  match text.dropWhile isCaseIgnorable with
  | [] => false
  | c :: _ => isCased c

/-- Lower case of a text that follows `before`, which is given in reverse. -/
def lowerFrom (before : Text) : Text → Text
  | [] => []
  | c :: rest =>
      (if c = 'Σ' then
        [if meetsCased before && !meetsCased rest then 'ς' else 'σ']
      else lower c) ++ lowerFrom (c :: before) rest

end Letter

namespace Text

/-- Lower case of a whole text. -/
def lower (text : Text) : Text :=
  Letter.lowerFrom [] text

end Text

end Reshape
