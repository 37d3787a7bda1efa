import Reshape.Document.Written
import Reshape.Error
import Reshape.Rule.Basic
import Reshape.Settings.Basic

/-!
# Sessions

Selecting and calling functions asks questions of documents and calls functions
that are given from outside.  A session is such a computation together with the
trace of what it asked and called, which is kept even if it fails.
-/

namespace Reshape

/-- What was asked of documents, with the answers, and which functions were
called with which payload. -/
structure Trace where
  asked : List (Text × Except Projection.Error (Option Document))
  calls : List (Text × Text)

/-- A computation that may fail and leaves a trace. -/
abbrev Session (α : Type) := ExceptT Error (StateM Trace) α

/-- A function given from outside: it takes its name and the text of its
payload, and gives bytes or fails with a message. -/
abbrev Callback := Text → Text → Except Text ByteArray

namespace Session

/-- Runs a session from an empty trace. -/
def run {α : Type} (session : Session α) : Except Error α × Trace :=
  Id.run (StateT.run (ExceptT.run session) ⟨[], []⟩)

/-- Asks for the value of an expression on a document. -/
def ask (settings : Settings) (document : Document) (text : Text) :
    Session (Option Document) := do
  let answer := Projection.get settings.maxDepth document text
  modify fun trace => { trace with asked := trace.asked ++ [(text, answer)] }
  match answer with
  | .ok value => return value
  | .error error => throw (.projection error)

/-- Calls a function. -/
def call (callback : Callback) (name payload : Text) : Session ByteArray := do
  modify fun trace => { trace with calls := trace.calls ++ [(name, payload)] }
  match callback name payload with
  | .ok bytes => return bytes
  | .error message => throw (.callback name message)

/-- Reads bytes as a JSON text. -/
def readDocument (bytes : ByteArray) : Session Document :=
  match Document.ofBytes? bytes with
  | some document => return document
  | none => throw .json

/-- The first target path of the rules that has no value on the document. -/
def missingTarget (settings : Settings) (document : Document) :
    RuleSet → Session (Option Path)
  | [] => return none
  | rule :: rest => do
      match ← ask settings document rule.target.path with
      | some _ => missingTarget settings document rest
      | none => return some rule.target.path

end Session

end Reshape
