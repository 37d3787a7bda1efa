import Reshape.Path.Basic
import Reshape.Projection.Modifier

/-!
# Type suffixes

A path may end in `@` and the name of a type.  Only one `@` can begin the
suffix: the last one that does not follow a dot, since an `@` behind a dot
begins a modifier.  It does not begin one either if a dot follows anywhere
behind it, or if it begins the whole text and the text is a modifier.
-/

namespace Reshape

namespace Path

/-- Cuts a reversed text at its first `@` that is not followed by a dot, which
is the last `@` of the text that does not follow one.  Gives what stands after
it in the text, and what stands before it in reverse. -/
def lastMark? (suffix : Text) : Text → Option (Text × Text)
  | [] => none
  | c :: before =>
      if c = '@' && before.head? ≠ some '.' then some (suffix, before)
      else lastMark? (c :: suffix) before

/-- Splits a text with a type suffix into the path and the type. -/
def typeSuffix? (text : Text) : Option (Path × Text) :=
  match lastMark? [] text.reverse with
  | none => none
  | some (suffix, before) =>
      if suffix.contains '.' then none
      else if before.isEmpty && (Modifier.ofName? suffix none).isSome then none
      else some (before.reverse, suffix)

/-- The byte at which the type suffix begins. -/
def typeOffset? (text : Text) : Option Nat :=
  (typeSuffix? text).map fun (path, _) => path.byteSize

/-- The path and the type of a text; the type is empty if there is none. -/
def splitType (text : Text) : Path × Text :=
  (typeSuffix? text).getD (text, [])

end Path

end Reshape
