import Reshape.Error
import Reshape.Settings.Json
import Reshape.Settings.Yaml

/-!
# Settings from a file

A file whose extension is `yaml` or `yml` holds settings in YAML, any other file
in JSON.  Settings from a file have to allow some nesting.
-/

namespace Reshape

namespace Settings

/-- Reads settings in JSON. -/
def ofJson (text : Text) : Except Error Settings :=
  match ofJson? text with
  | some settings => .ok settings
  | none => .error (.malformedSettings .json)

/-- Reads settings in YAML. -/
def ofYaml (text : Text) : Except Error Settings :=
  match ofYaml? text with
  | some settings => .ok settings
  | none => .error (.malformedSettings .yaml)

/-- The text behind the last dot of a file name.  A name has no extension if it
has no dot, or only one at its start. -/
def extension? (name : Text) : Option Text :=
  let last := (name.reverse.takeWhile (· != '/')).reverse
  let suffix := (last.reverse.takeWhile (· != '.')).reverse
  if last.length ≤ suffix.length + 1 || last = "..".toList then none else some suffix

/-- Whether a file holds YAML, by its name. -/
def isYamlName (name : Text) : Bool :=
  extension? name = some "yaml".toList || extension? name = some "yml".toList

/-- Reads settings from a file with the given name and content; there is no
content if the file does not exist. -/
def ofFile (name : Text) (content : Option ByteArray) : Except Error Settings := do
  let text ←
    match content.bind String.fromUTF8? with
    | some text => pure text.toList
    | none => throw .unreadableFile
  let settings ← if isYamlName name then ofYaml text else ofJson text
  if settings.maxDepth = 0 then throw .zeroMaxDepth
  return settings

end Settings

end Reshape
