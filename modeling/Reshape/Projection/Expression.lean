import Reshape.Projection.Modifier

/-!
# Expressions

A projection expression is a pipeline of stages: each takes the value that the
stage before it gives.  A stage is a path, an object literal or an array
literal.  This module holds the trees, their text, and the nesting of their
literals.
-/

namespace Reshape

/-- One step of a path inside an expression. -/
inductive Segment where
  /-- A member of an object; a number also names an item of an array. -/
  | key (name : Text)
  /-- The items of an array: their number at the end of a path, else each of
  them. -/
  | each
  | modifier (modifier : Modifier)
deriving DecidableEq, Repr

/-- One stage of a pipeline. -/
inductive Stage where
  | path (segments : List Segment)
  | object (members : List (Text × List Stage))
  | array (items : List (List Stage))

/-- A pipeline of stages. -/
abbrev Expression := List Stage

/-! ## Nesting -/

mutual

/-- The nesting of the literals in a stage. -/
def Stage.depth : Stage → Nat
  | .path _ => 0
  | .object members => 1 + Stage.depthOfMembers members
  | .array items => 1 + Stage.depthOfItems items

/-- The nesting of the literals in an expression. -/
def Expression.depth : List Stage → Nat
  | [] => 0
  | stage :: rest => max stage.depth (Expression.depth rest)

/-- The deepest nesting among the members of a literal. -/
def Stage.depthOfMembers : List (Text × List Stage) → Nat
  | [] => 0
  | (_, value) :: rest => max (Expression.depth value) (Stage.depthOfMembers rest)

/-- The deepest nesting among the items of a literal. -/
def Stage.depthOfItems : List (List Stage) → Nat
  | [] => 0
  | item :: rest => max (Expression.depth item) (Stage.depthOfItems rest)

end

/-! ## Text -/

/-- The text of a segment. -/
def Segment.text : Segment → Text
  | .key name => name
  | .each => ['#']
  | .modifier m => m.text

mutual

/-- The text of a stage.  Keys are written as they are, without escapes. -/
def Stage.text : Stage → Text
  | .path segments => Text.join ['.'] (segments.map Segment.text)
  | .object members => '{' :: Text.join [','] (Stage.memberTexts members) ++ ['}']
  | .array items => '[' :: Text.join [','] (Stage.itemTexts items) ++ [']']

/-- The texts of the stages of a pipeline. -/
def Stage.texts : List Stage → List Text
  | [] => []
  | stage :: rest => stage.text :: Stage.texts rest

/-- The texts of the members of a literal. -/
def Stage.memberTexts : List (Text × List Stage) → List Text
  | [] => []
  | (key, value) :: rest =>
      (key ++ ':' :: Text.join ['|'] (Stage.texts value)) :: Stage.memberTexts rest

/-- The texts of the items of a literal. -/
def Stage.itemTexts : List (List Stage) → List Text
  | [] => []
  | item :: rest => Text.join ['|'] (Stage.texts item) :: Stage.itemTexts rest

end

/-- The text of an expression. -/
def Expression.text (expression : Expression) : Text :=
  Text.join ['|'] (Stage.texts expression)

/-! ## Equality -/

mutual

/-- Whether two stages are equal. -/
def Stage.same : Stage → Stage → Bool
  | .path left, .path right => left == right
  | .object left, .object right => Stage.sameMembers left right
  | .array left, .array right => Stage.sameItems left right
  | _, _ => false

/-- Whether two expressions are equal. -/
def Expression.same : List Stage → List Stage → Bool
  | [], [] => true
  | left :: lefts, right :: rights => left.same right && Expression.same lefts rights
  | _, _ => false

/-- Whether the members of two literals are equal. -/
def Stage.sameMembers : List (Text × List Stage) → List (Text × List Stage) → Bool
  | [], [] => true
  | (leftKey, left) :: lefts, (rightKey, right) :: rights =>
      leftKey == rightKey && Expression.same left right && Stage.sameMembers lefts rights
  | _, _ => false

/-- Whether the items of two literals are equal. -/
def Stage.sameItems : List (List Stage) → List (List Stage) → Bool
  | [], [] => true
  | left :: lefts, right :: rights =>
      Expression.same left right && Stage.sameItems lefts rights
  | _, _ => false

end

end Reshape
