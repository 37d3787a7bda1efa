import Reshape.Document.Coercion
import Reshape.Document.Rows
import Reshape.Projection.Parser

/-!
# Evaluating expressions

The value of an expression on a document.  A path that leads nowhere has no
value, and members and items without a value are left out of their literal, so
evaluation itself cannot fail.  The only error is an expression whose literals
are nested too deeply.
-/

namespace Reshape

/-- The index that a key names: digits below `2 ^ 64`, with a plus sign if any. -/
def Text.index? (key : Text) : Option Nat :=
  Text.word? ((Text.after? ['+'] key).getD key)

namespace Document

/-- The member of an object, or the item of an array, that a key names. -/
def child? (key : Text) : Document → Option Document
  | .object members => Members.get? members key
  | .array items => key.index?.bind (items[·]?)
  | _ => none

end Document

/-- Applies a modifier. -/
def Modifier.act? : Modifier → Document → Option Document
  | .this, d => some d
  | .toNumber, d => some d.toNumber
  | .toBool, d => some d.toBool
  | .toText, d => some d.toText
  | .flatten, d => some d.flatten
  | .group, d => d.group?
  | .groupPlus levels, d => d.groupPlus? levels

/-- The value at a path. -/
def evalPath? : List Segment → Document → Option Document
  | [], d => some d
  | .key name :: rest, d => (d.child? name).bind (evalPath? rest)
  | .each :: [], d => d.items?.map fun items => .ofNat items.length
  | .each :: next :: rest, d =>
      d.items?.map fun items => .array (items.filterMap (evalPath? (next :: rest)))
  | .modifier modifier :: rest, d => (modifier.act? d).bind (evalPath? rest)

mutual

/-- The value that a stage gives for the value before it. -/
def Stage.eval? : Stage → Document → Option Document
  | .path segments, d => evalPath? segments d
  | .object members, d => some (.object (Members.ofList (Stage.evalMembers members d)))
  | .array items, d => some (.array (Stage.evalItems items d))

/-- The value that a pipeline gives.  A pipeline without stages has none. -/
def Expression.eval? : List Stage → Document → Option Document
  | [], _ => none
  | stage :: rest, d => (stage.eval? d).bind (Expression.pass? rest)

/-- What the further stages of a pipeline make of the value before them. -/
def Expression.pass? : List Stage → Document → Option Document
  | [], d => some d
  | stage :: rest, d => (stage.eval? d).bind (Expression.pass? rest)

/-- The members of a literal that have a value. -/
def Stage.evalMembers : List (Text × List Stage) → Document → List (Text × Document)
  | [], _ => []
  | (key, value) :: rest, d =>
      match Expression.eval? value d with
      | some result => (key, result) :: Stage.evalMembers rest d
      | none => Stage.evalMembers rest d

/-- The items of a literal that have a value. -/
def Stage.evalItems : List (List Stage) → Document → List Document
  | [], _ => []
  | item :: rest, d =>
      match Expression.eval? item d with
      | some result => result :: Stage.evalItems rest d
      | none => Stage.evalItems rest d

end

namespace Projection

/-- The nesting that is allowed unless settings say otherwise. -/
def defaultDepth : Nat := 64

/-- The error for an expression that is nested too deeply. -/
def tooDeep (maxDepth : Nat) (expression : Expression) : Error :=
  .execution
    ("Expression nesting of ".toList ++ Text.ofNat (Expression.depth expression) ++
      " exceeds the limit of ".toList ++ Text.ofNat maxDepth)
    expression.text

/-- Evaluates an expression whose nesting is within the limit. -/
def evaluate (maxDepth : Nat) (expression : Expression) (document : Document) :
    Except Error (Option Document) :=
  if maxDepth < Expression.depth expression then .error (tooDeep maxDepth expression)
  else .ok (Expression.eval? expression document)

/-- Reads an expression and evaluates it.  A blank text has no value. -/
def get (maxDepth : Nat) (document : Document) (text : Text) :
    Except Error (Option Document) :=
  if text.isAllBlank then .ok none
  else do evaluate maxDepth (← parse text) document

end Projection

end Reshape
