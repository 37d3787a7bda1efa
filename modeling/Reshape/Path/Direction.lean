import Reshape.Path.Basic

/-!
# Directions

A path of a function parameter holds a marker that tells whether the parameter
goes into the function or comes out of it.  The marker is a whole segment, but
not the first, and a type suffix may follow it.  A path with both markers counts
as an input.
-/

namespace Reshape

/-- Whether a parameter goes into a function or comes out of it. -/
inductive Direction where
  | input
  | output
deriving DecidableEq, Repr

namespace Direction

/-- The segment that marks a direction. -/
def token : Direction → Text
  | .input => "input".toList
  | .output => "output".toList

/-- The marker inside a path, with the dot before it. -/
def marker (direction : Direction) : Text :=
  '.' :: direction.token

/-- Whether a segment ends where the text begins. -/
def endsSegment : Text → Bool
  | [] => true
  | c :: _ => c == '.' || c == '@'

/-- The text before and after the first occurrence of a marker that ends its
segment. -/
def cutMarker? (marker : Text) : Text → Option (Text × Text)
  | [] => none
  | c :: rest =>
      match Text.after? marker (c :: rest) with
      | some tail =>
          if endsSegment tail then some ([], tail)
          else (cutMarker? marker rest).map fun (head, tail) => (c :: head, tail)
      | none => (cutMarker? marker rest).map fun (head, tail) => (c :: head, tail)

end Direction

/-- A path cut at its direction marker. -/
structure Located where
  direction : Direction
  before : Text
  after : Text
deriving DecidableEq, Repr

namespace Path

/-- Cuts a path at the marker of one direction. -/
def locateAs? (direction : Direction) (path : Path) : Option Located :=
  (Direction.cutMarker? direction.marker path).map fun (before, after) =>
    ⟨direction, before, after⟩

/-- Cuts a path at its direction marker. -/
def locate? (path : Path) : Option Located :=
  (locateAs? .input path).or (locateAs? .output path)

def direction? (path : Path) : Option Direction :=
  (locate? path).map (·.direction)

def isIn (path : Path) : Bool :=
  direction? path = some .input

def isOut (path : Path) : Bool :=
  direction? path = some .output

/-- The namespace before the direction marker and the local name behind it.  A
path without a marker is all local name. -/
def splitDirection (path : Path) : Text × Text :=
  match locate? path with
  | some located => (trimDots located.before, trimDots located.after)
  | none => ([], path)

end Path

end Reshape
