import Reshape.Document.Record
import Reshape.Document.Writer
import Reshape.Rule.Basic

/-!
# Rules as JSON

The form in which rules are exchanged: an array of records with the fields `src`
and `dst`, each a record with the fields `path` and `type`.  The type may be left
out, and a blank text holds no rules.
-/

namespace Reshape

namespace Endpoint

def toDocument (endpoint : Endpoint) : Document :=
  .object [("path".toList, .string endpoint.path), ("type".toList, .string endpoint.type)]

def ofWritten? (written : Written) : Option Endpoint := do
  match ← written.fields? ["path".toList, "type".toList] with
  | [path, type] =>
      let path ← path
      return ⟨← path.text?, ← type.elim (some []) Written.text?⟩
  | _ => none

end Endpoint

namespace Rule

def toDocument (rule : Rule) : Document :=
  .object [("src".toList, rule.source.toDocument), ("dst".toList, rule.target.toDocument)]

def ofWritten? (written : Written) : Option Rule := do
  match ← written.fields? ["src".toList, "dst".toList] with
  | [source, target] => return ⟨← Endpoint.ofWritten? (← source), ← Endpoint.ofWritten? (← target)⟩
  | _ => none

end Rule

namespace RuleSet

/-- The JSON text of a rule set. -/
def toJson (rules : RuleSet) : Text :=
  (Document.array (rules.map Rule.toDocument)).write

/-- Reads the JSON text of a rule set. -/
def ofJson? (text : Text) : Option RuleSet :=
  if text.isAllBlank then some []
  else (Written.read? text).bind (Written.list? Rule.ofWritten?)

end RuleSet

end Reshape
