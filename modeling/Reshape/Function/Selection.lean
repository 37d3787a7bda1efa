import Reshape.Function.Session
import Reshape.Function.Signature

/-!
# Selecting a function

A function is a candidate for some wanted paths if one of its outputs goes to
one of them.  The first candidate is selected all of whose inputs are there.
-/

namespace Reshape

namespace RuleSet

/-- The rules about functions. -/
def aboutFunctions (rules : RuleSet) : RuleSet :=
  rules.under Path.functions

/-- The rules that write one of the wanted paths, in the order of the paths. -/
def writers (rules : RuleSet) (wanted : List Path) : RuleSet :=
  collected (wanted.flatMap fun path =>
    rules.filter fun rule => rule.isOut && Text.sameLetters rule.target.path path)

/-- The namespaces of the functions that write one of the wanted paths. -/
def candidates (rules : RuleSet) (wanted : List Path) : List Text :=
  (rules.writers wanted).sourceSpaces Direction.output.marker

/-- The rules about the functions that write a target of the `working` rules. -/
def restrictTo (rules working : RuleSet) : RuleSet :=
  let rules := rules.aboutFunctions
  addAll [] ((rules.candidates working.targets).flatMap fun space => rules.under space)

end RuleSet

/-- The name of a function, from its namespace. -/
def functionName (space : Text) : Text :=
  (Text.after? Path.functions space).getD space

namespace Session

/-- The first candidate all of whose inputs are there. -/
def firstReady (settings : Settings) (rules : RuleSet) (document : Document) :
    List Text → Session (Option Text)
  | [] => return none
  | candidate :: rest => do
      let inputs := rules.under (Path.join [candidate, Direction.input.token])
      match ← missingTarget settings document inputs with
      | none => return some candidate
      | some _ => firstReady settings rules document rest

/-- The name of the function that gives the wanted paths, or `none` if no
function does. -/
def select (settings : Settings) (rules : RuleSet) (document : Document)
    (wanted : List Path) : Session (Option Text) := do
  let rules := rules.aboutFunctions
  let candidates := rules.candidates wanted
  if candidates.isEmpty then return none
  match ← firstReady settings rules document candidates with
  | some candidate => return some (functionName candidate)
  | none => throw (.functionNotFound candidates wanted document)

end Session

end Reshape
