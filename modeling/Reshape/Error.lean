import Reshape.Document.Writer
import Reshape.Projection.Error

/-!
# Errors

Everything that can go wrong, by cause, and the messages.
-/

namespace Reshape

/-- The languages in which settings are written. -/
inductive SettingsFormat where
  | json
  | yaml
deriving DecidableEq, Repr

/-- What can go wrong. -/
inductive Error where
  /-- The path is not in the namespace of functions. -/
  | notFunctionPath (path : Text)
  /-- The path of a function parameter has no direction. -/
  | directionMissing (path : Text)
  /-- No candidate has all of its inputs. -/
  | functionNotFound (candidates targets : List Text) (input : Document)
  /-- An input of a function is missing. -/
  | missingArgument (function path : Text)
  /-- The function that was called failed. -/
  | callback (function message : Text)
  /-- The text is not the JSON text that was expected. -/
  | json
  | projection (error : Projection.Error)
  /-- The text does not describe settings. -/
  | malformedSettings (format : SettingsFormat)
  /-- Settings from a file have to allow some nesting. -/
  | zeroMaxDepth
  /-- The file does not exist or is not text. -/
  | unreadableFile

namespace Error

/-- Whether the error only says that a path is not a function parameter. -/
def isSkippable : Error → Bool
  | .notFunctionPath _ => true
  | .directionMissing _ => true
  | _ => false

/-- Items in brackets. -/
def listing (items : List Text) : Text :=
  '[' :: Text.join [','] items ++ [']']

/-- The message of an error. -/
def message : Error → Text
  | .notFunctionPath path =>
      "Not a function path: ".toList ++ path ++ " (expected prefix `func.`)".toList
  | .directionMissing path =>
      "Function path is missing a direction: ".toList ++ path ++
        " (expected func.[package.]funcName.(input|output).argName)".toList
  | .functionNotFound candidates targets input =>
      "Transfer function not found: candidates ".toList ++ listing candidates ++
        ", targets ".toList ++ listing targets ++ ", input: ".toList ++ input.write
  | .missingArgument function path =>
      "Missing argument for ".toList ++ function ++ ": ".toList ++ path ++
        " not found in input".toList
  | .callback function message =>
      "Transfer function ".toList ++ function ++ " failed: ".toList ++ message
  | .json => "JSON error: ".toList
  | .projection error => "Projection error: ".toList ++ error.message
  | .malformedSettings .json => "Configuration error: Invalid JSON configuration: ".toList
  | .malformedSettings .yaml => "Configuration error: Invalid YAML configuration: ".toList
  | .zeroMaxDepth => "Configuration error: max_depth must be greater than zero".toList
  | .unreadableFile => "IO error: ".toList

end Error

end Reshape
