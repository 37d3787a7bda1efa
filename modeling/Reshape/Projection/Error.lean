import Reshape.Text.Basic

/-!
# Projection errors

What can go wrong with an expression: its text is malformed at some place, or it
is nested too deeply to be evaluated.  Positions count characters.
-/

namespace Reshape

namespace Projection

/-- An error of reading or evaluating an expression. -/
inductive Error where
  /-- The text is malformed at a position. -/
  | malformed (message : Text) (position : Nat) (input : Text)
  /-- Something else was expected at a position. -/
  | unexpected (message : Text) (position : Nat) (input : Text) (expected : List Text)
      (found : Text)
  /-- A modifier that does not exist. -/
  | unknownModifier (name : Text) (position : Nat)
  /-- The expression cannot be evaluated. -/
  | execution (message : Text) (expression : Text)
deriving DecidableEq, Repr

namespace Error

/-- The message of an error, on one line. -/
def message : Error → Text
  | .malformed message position _ =>
      "Parse error at position ".toList ++ Text.ofNat position ++ ": ".toList ++ message
  | .unexpected message position _ expected found =>
      "Syntax error at position ".toList ++ Text.ofNat position ++ ": ".toList ++ message ++
        " (expected ".toList ++ Text.join " or ".toList expected ++ ", found ".toList ++
        found ++ [')']
  | .unknownModifier name position =>
      "Unknown modifier @".toList ++ name ++ " at position ".toList ++ Text.ofNat position
  | .execution message _ => "Execution error: ".toList ++ message

/-- The text of an expression on a line of its own, with a mark under a
position.  There is no mark for a position beyond the number of bytes of the
text. -/
def excerpt (position : Nat) (input : Text) : Text :=
  if input.isEmpty then []
  else
    "\nInput: ".toList ++ input ++
      if position ≤ input.byteSize then
        "\n       ".toList ++ List.replicate position ' ' ++ ['^']
      else []

/-- The message of an error together with the place it is about. -/
def detail (error : Error) : Text :=
  match error with
  | .malformed _ position input => error.message ++ excerpt position input
  | .unexpected _ position input _ _ => error.message ++ excerpt position input
  | _ => error.message

end Error

end Projection

end Reshape
