import Reshape.Error
import Reshape.Rule.Basic

/-!
# Function parameters

A path of the form `func.[package.]function.(input|output).argument` describes a
parameter of a function.  An argument that has further segments is an object,
and one that ends in `#` is an array; otherwise the type is the declared one.
Two parameters are the same if their paths and the types they show agree up to
the case of ASCII letters.
-/

namespace Reshape

/-- A parameter of a function. -/
structure Parameter where
  direction : Direction
  package : Text
  function : Text
  name : Text
  /-- The path without package and type: `func.<function>.<direction>.<name>`. -/
  path : Path
  type : Text
deriving DecidableEq, Repr

/-- The name of a function within its package. -/
def qualifiedName (package function : Text) : Text :=
  if package.isEmpty then function else package ++ '.' :: function

namespace Parameter

/-- The texts before and behind the last dot; all of the text stands behind it
if there is no dot. -/
def splitLast (text : Text) : Text × Text :=
  let last := (text.reverse.takeWhile (· != '.')).reverse
  (text.take (text.length - last.length - 1), last)

/-- The name and the type of an argument, from its text and its declared type. -/
def nameAndType (argument type : Text) : Text × Text :=
  let (name, type) :=
    match Text.cutAt? ['.'] argument with
    | some (first, _) => (first, "object".toList)
    | none => (argument, type)
  if name.getLast? = some '#' then (name.dropLast, "array".toList) else (name, type)

/-- The parameter that a path describes, with its declared type. -/
def ofPath (path : Path) (type : Text) : Except Error Parameter :=
  if !path.hasNamespace Path.functions then .error (.notFunctionPath path)
  else
    match path.locate? with
    | none => .error (.directionMissing path)
    | some located =>
        let identity := Path.trimDots (located.before.drop Path.functions.length)
        let (package, function) := splitLast identity
        let (name, type) := nameAndType (Path.trimDots located.after) type
        let direction := located.direction
        .ok ⟨direction, package, function, name,
          Path.join ["func".toList, function, direction.token, name], type⟩

/-- The parameter that a path with a type suffix describes. -/
def explain (text : Text) : Except Error Parameter :=
  let (path, type) := Path.splitType text
  ofPath path type

/-- The parameter that one end of a rule describes. -/
def ofEndpoint (endpoint : Endpoint) : Except Error Parameter :=
  ofPath endpoint.path endpoint.type

def isIn (parameter : Parameter) : Bool :=
  parameter.direction = .input

def isOut (parameter : Parameter) : Bool :=
  parameter.direction = .output

/-- The function with its package. -/
def qualified (parameter : Parameter) : Text :=
  qualifiedName parameter.package parameter.function

/-- The type as it is shown: objects and arrays show by their form. -/
def shownType (parameter : Parameter) : Text :=
  if Text.sameLetters parameter.type "object".toList ||
      Text.sameLetters parameter.type "array".toList then []
  else parameter.type

/-- The path of a parameter and the type it shows. -/
def text (parameter : Parameter) : Text :=
  Endpoint.text ⟨parameter.path, parameter.shownType⟩

/-- Whether two parameters are the same. -/
def same (left right : Parameter) : Bool :=
  Text.sameLetters left.path right.path && Text.sameLetters left.shownType right.shownType

end Parameter

/-- An ordered list of parameters. -/
abbrev Parameters := List Parameter

namespace Parameters

/-- Adds a parameter in the place of the same one, or at the end. -/
def add (parameters : Parameters) (parameter : Parameter) : Parameters :=
  upsert Parameter.same parameter parameters

/-- The parameters of a list, each once. -/
def collected (parameters : List Parameter) : Parameters :=
  collect Parameter.same parameters

/-- The names with commas between them. -/
def names (parameters : Parameters) : Text :=
  Text.join [','] (parameters.map (·.name))

def inputs (parameters : Parameters) : Parameters :=
  collected (parameters.filter Parameter.isIn)

def outputs (parameters : Parameters) : Parameters :=
  collected (parameters.filter Parameter.isOut)

/-- Adds a parameter to the group of its function, or starts a group. -/
def addToGroup (parameter : Parameter) : List (Text × Parameters) → List (Text × Parameters)
  | [] => [(parameter.qualified, [parameter])]
  | (name, group) :: rest =>
      if name = parameter.qualified then (name, group.add parameter) :: rest
      else (name, group) :: addToGroup parameter rest

/-- The parameters of each function, in the order in which the functions are
first mentioned. -/
def groups (parameters : Parameters) : List (Text × Parameters) :=
  parameters.foldl (fun groups parameter => addToGroup parameter groups) []

end Parameters

/-- The parameters that the sources of a rule set describe.  Sources that
describe none are passed over. -/
def RuleSet.parameters (rules : RuleSet) : Parameters :=
  Parameters.collected (rules.filterMap fun rule => (Parameter.ofEndpoint rule.source).toOption)

end Reshape
