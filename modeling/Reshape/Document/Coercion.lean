import Reshape.Document.Writer

/-!
# Coercions

Turning a value into a number, a truth value or a string.  A coercion acts on
the values that are not arrays, under any number of arrays, and always gives a
result.
-/

namespace Reshape

namespace Document

mutual

/-- Applies `f` to a document that is not an array, and to every item of one
that is. -/
def mapLeaves (f : Document → Document) : Document → Document
  | .array items => .array (mapLeavesList f items)
  | leaf => f leaf

/-- Applies `mapLeaves f` to every document of a list. -/
def mapLeavesList (f : Document → Document) : List Document → List Document
  | [] => []
  | item :: rest => mapLeaves f item :: mapLeavesList f rest

end

/-- The number of a value: a string stands for the number written in it, and
what stands for none is zero. -/
def leafNumber : Document → Number
  | .number n => n
  | .string text => Number.ofText text
  | .bool true => .integer 1
  | _ => .integer 0

/-- The strings that stand for truth, up to blanks around them. -/
def trueTexts : List Text :=
  ["1".toList, "t".toList, "T".toList, "true".toList, "TRUE".toList, "True".toList]

/-- The truth value of a value. -/
def leafBool : Document → Bool
  | .bool value => value
  | .string text => trueTexts.contains text.trim
  | .number n => !n.isZero
  | _ => false

/-- The string of a value: `null` gives the empty one, and an object its compact
text. -/
def leafText : Document → Text
  | .string text => text
  | .null => []
  | leaf => leaf.write

def toNumber (d : Document) : Document :=
  d.mapLeaves fun leaf => .number (leafNumber leaf)

def toBool (d : Document) : Document :=
  d.mapLeaves fun leaf => .bool (leafBool leaf)

def toText (d : Document) : Document :=
  d.mapLeaves fun leaf => .string (leafText leaf)

end Document

end Reshape
