import Reshape.Document.Patch
import Reshape.Function.Selection
import Reshape.Rule.Compile

/-!
# Calling a function

The inputs of the function are taken out of the document into a payload, the
function is called, and what it gives is arranged by its output rules into a
patch, which is applied to the document.
-/

namespace Reshape

/-- What a call does to its input. -/
inductive Outcome where
  /-- No function applies, and the input stands as it is. -/
  | unchanged
  | merged (document : Document)

/-- The bytes after a call, given those before it. -/
def Outcome.bytes (input : ByteArray) : Outcome → ByteArray
  | .unchanged => input
  | .merged document => (String.ofList document.write).toUTF8

namespace RuleSet

/-- The projection from a document to the payload of the function with the given
namespace. -/
def payloadProjection (settings : Settings) (space : Text) (rules : RuleSet) : Text :=
  let space := space ++ Direction.input.marker
  (rules.inputs.swapped.mapTargets (Path.trimNamespace space)).compile settings.coercions

/-- The projection from what a function gives to the patch of the document. -/
def resultProjection (settings : Settings) (space : Text) (rules : RuleSet) : Text :=
  let space := space ++ Direction.output.marker
  (rules.outputs.mapSources (Path.trimNamespace space)).compile settings.coercions

end RuleSet

namespace Session

/-- Calls the function with the given namespace on a document. -/
def invoke (settings : Settings) (callback : Callback) (rules : RuleSet) (space : Text)
    (document : Document) : Session Document := do
  let name := functionName space
  let rules := rules.under space
  if let some path ← missingTarget settings document rules.inputs then
    throw (.missingArgument name path)
  let payload ← ask settings document (rules.payloadProjection settings space)
  let result ← call callback name (payload.getD (.object [])).write
  let result ← readDocument result
  match ← ask settings result (rules.resultProjection settings space) with
  | some patch => return document.patch patch
  | none => return document

/-- Calls the first function that the rules mention. -/
def callFirst (settings : Settings) (callback : Callback) (rules : RuleSet)
    (input : ByteArray) : Session Outcome := do
  let rules := rules.aboutFunctions
  match rules.signatures with
  | [] => return .unchanged
  | signature :: _ =>
      let document ← readDocument input
      return .merged (← invoke settings callback rules signature.space document)

/-- Calls the function that gives the wanted paths. -/
def callFor (settings : Settings) (callback : Callback) (rules : RuleSet)
    (input : ByteArray) (wanted : List Path) : Session Outcome := do
  let document ← readDocument input
  match ← select settings rules document wanted with
  | none => return .unchanged
  | some name =>
      let space := Path.functions ++ name
      return .merged (← invoke settings callback rules.aboutFunctions space document)

end Session

end Reshape
