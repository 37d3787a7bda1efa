import Reshape.Document.Record
import Reshape.Settings.Basic

/-!
# Settings in JSON

Settings are written as a record with the fields `coercions` and `max_depth`,
either of which may be left out.
-/

namespace Reshape

/-- Reads one coercion. -/
def Coercion.ofWritten? (written : Written) : Option Coercion := do
  match ← written.fields? ["type".toList, "convertFn".toList] with
  | [some type, some suffix] => return ⟨← type.text?, ← suffix.text?⟩
  | _ => none

namespace Settings

/-- Reads settings; a field that is left out has its standard value. -/
def ofWritten? (written : Written) : Option Settings := do
  match ← written.fields? ["coercions".toList, "max_depth".toList] with
  | [coercions, maxDepth] =>
      return ⟨← coercions.elim (some standard.coercions) (Written.list? Coercion.ofWritten?),
        ← maxDepth.elim (some standard.maxDepth) Written.nat?⟩
  | _ => none

/-- Reads the JSON text of settings. -/
def ofJson? (text : Text) : Option Settings :=
  (Written.read? text).bind ofWritten?

end Settings

end Reshape
