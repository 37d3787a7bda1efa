import Reshape.Text.Basic

/-!
# Modifiers

The built-in operations that a path may name: `@this` is the value itself, three
coerce it, and three change the arrangement of arrays.
-/

namespace Reshape

/-- A built-in operation on values. -/
inductive Modifier where
  | this
  | toNumber
  | toBool
  | toText
  | flatten
  | group
  /-- Takes rows the given number of times before it groups. -/
  | groupPlus (levels : Nat)
deriving DecidableEq, Repr

namespace Modifier

/-- The name of a modifier. -/
def name : Modifier → Text
  | .this => "this".toList
  | .toNumber => "tonum".toList
  | .toBool => "tobool".toList
  | .toText => "tostring".toList
  | .flatten => "flatten".toList
  | .group => "group".toList
  | .groupPlus _ => "groupPlus".toList

/-- The modifiers that take no argument. -/
def plain : List Modifier :=
  [.this, .toNumber, .toBool, .toText, .flatten, .group]

/-- The modifier with the given name and argument.  Only `groupPlus` takes an
argument, and it may be left out. -/
def ofName? (name : Text) (argument : Option Nat) : Option Modifier :=
  if name = "groupPlus".toList then some (.groupPlus (argument.getD 0))
  else if argument.isSome then none
  else plain.find? (·.name = name)

/-- The text of a modifier. -/
def text : Modifier → Text
  | .groupPlus levels => '@' :: (groupPlus levels).name ++ ':' :: Text.ofNat levels
  | modifier => '@' :: modifier.name

end Modifier

end Reshape
