import Reshape.Path.Basic
import Reshape.Text.Blank
import Reshape.Text.Letter

/-!
# Casing of paths

Turning the names in a path from one style of writing into another.  Each
segment is turned by itself, and the segment `#` is left alone.
-/

namespace Reshape

namespace Path

/-- Applies `f` to every segment but `#`. -/
def mapSegments (f : Text → Text) (path : Path) : Path :=
  ofSegments (path.segments.map fun segment => if segment = each then segment else f segment)

/-- The characters between the words of a name. -/
def isSeparator (c : Char) : Bool :=
  c == '_' || c == '-' || isBlank c

/-! ## Camel case -/

/-- The words of a name: the pieces between separators, without empty ones. -/
def words : Text → List Text
  | [] => []
  | c :: rest =>
      if isSeparator c then words rest
      else
        match rest with
        | [] => [[c]]
        | next :: _ =>
            if isSeparator next then [c] :: words rest
            else
              match words rest with
              | [] => [[c]]
              | word :: more => (c :: word) :: more

/-- Changes the first character of a word. -/
def mapFirst (f : Char → Text) : Text → Text
  | [] => []
  | c :: rest => f c ++ rest

/-- Joins the words of a name, the first starting small and the others large. -/
def camelSegment (segment : Text) : Text :=
  match words segment with
  | [] => []
  | first :: others =>
      mapFirst Letter.lower first ++ others.flatMap (mapFirst Letter.upper)

/-- `user_id.created_at` becomes `userId.createdAt`. -/
def camelCase (path : Path) : Path :=
  path.mapSegments camelSegment

/-! ## Snake case -/

/-- Sets a bar before the last capital of a run of at least two that a small
letter follows: `HTTPServer` becomes `HTTP_Server`.  `inRun` tells whether the
character before is a capital of the same run. -/
def breakAcronyms (inRun : Bool) : Text → Text
  | [] => []
  | c :: rest =>
      if c.isUpper then
        match rest with
        | next :: _ =>
            if inRun && next.isLower then '_' :: c :: breakAcronyms true rest
            else c :: breakAcronyms true rest
        | [] => [c]
      else c :: breakAcronyms false rest

/-- Sets a bar between a small letter or digit and a capital. -/
def breakWords : Text → Text
  | [] => []
  | [c] => [c]
  | c :: next :: rest =>
      if (c.isLower || c.isDigit) && next.isUpper then c :: '_' :: breakWords (next :: rest)
      else c :: breakWords (next :: rest)

/-- Replaces every run of separators by one bar.  `inRun` tells whether the
character before is a separator. -/
def mergeSeparators (inRun : Bool) : Text → Text
  | [] => []
  | c :: rest =>
      if isSeparator c then
        if inRun then mergeSeparators true rest else '_' :: mergeSeparators true rest
      else c :: mergeSeparators false rest

/-- Joins the words of a name by bars, in small letters. -/
def snakeSegment (segment : Text) : Text :=
  (mergeSeparators false (breakWords (breakAcronyms false segment))).lower

/-- `userId.CreatedAt` becomes `user_id.created_at`. -/
def snakeCase (path : Path) : Path :=
  path.mapSegments snakeSegment

/-! ## Other changes -/

/-- The path in small letters. -/
def lowerCase (path : Path) : Path :=
  path.lower

/-- Coerces the addressed value to a string. -/
def coerceToText (path : Path) : Path :=
  path ++ ".@tostring".toList

end Path

end Reshape
