import Reshape.Text.Blank

/-!
# Paths

A path is a text whose segments are separated by dots.  It is kept as written,
since empty segments and stray dots are allowed and survive every operation.
The segment `#` stands for the elements of an array, and a segment that starts
with `@` for a modifier.
-/

namespace Reshape

/-- A path, as written. -/
abbrev Path := Text

namespace Path

/-- The segment that stands for the elements of an array. -/
def each : Text := ['#']

/-- The namespace of function parameters. -/
def functions : Text := "func.".toList

/-- The segments of a path. -/
def segments (path : Path) : List Text :=
  Text.split '.' path

/-- Puts dots between segments. -/
def ofSegments (segments : List Text) : Path :=
  Text.join ['.'] segments

/-- The path without the dots around it. -/
def trimDots (path : Path) : Path :=
  Text.trimBoth (· == '.') path

/-- Joins parts of a path, leaving out the empty ones and the dots around each. -/
def join (parts : List Text) : Path :=
  ofSegments ((parts.filter (!·.isEmpty)).map trimDots)

/-- Whether a path starts with a namespace, as text. -/
def hasNamespace (path : Path) (space : Text) : Bool :=
  space.isPrefixOf path

/-- Removes a namespace, if it is there, and then one dot, if it is there. -/
def trimNamespace (space : Text) (path : Path) : Path :=
  let rest := (Text.after? space path).getD path
  (Text.after? ['.'] rest).getD rest

end Path

end Reshape
