import Reshape.Document.Record
import Reshape.Function.Signature

/-!
# Parameters and signatures as JSON

The records in which parameters and signatures are exchanged.  All fields are
required.
-/

namespace Reshape

/-- The name of a direction; it may also be written as the only key of an object
whose value is `null`. -/
def Direction.ofWritten? (written : Written) : Option Direction := do
  let name ←
    match written with
    | .object [(key, .null)] => key
    | written => written.text?
  [Direction.input, .output].find? fun direction => direction.token = name

namespace Parameter

def toDocument (parameter : Parameter) : Document :=
  .object
    [("direction".toList, .string parameter.direction.token),
     ("package".toList, .string parameter.package),
     ("funcName".toList, .string parameter.function),
     ("name".toList, .string parameter.name),
     ("path".toList, .string parameter.path),
     ("type".toList, .string parameter.type)]

def ofWritten? (written : Written) : Option Parameter := do
  let fields ← written.fields?
    ["direction".toList, "package".toList, "funcName".toList, "name".toList, "path".toList,
     "type".toList]
  match ← fields.mapM id with
  | [direction, package, function, name, path, type] =>
      return ⟨← Direction.ofWritten? direction, ← package.text?, ← function.text?,
        ← name.text?, ← path.text?, ← type.text?⟩
  | _ => none

end Parameter

namespace Parameters

def toDocument (parameters : Parameters) : Document :=
  .array (parameters.map Parameter.toDocument)

/-- The JSON text of parameters. -/
def toJson (parameters : Parameters) : Text :=
  (toDocument parameters).write

/-- Reads the JSON text of parameters. -/
def ofJson? (text : Text) : Option Parameters :=
  (Written.read? text).bind (Written.list? Parameter.ofWritten?)

end Parameters

namespace Signature

def toDocument (signature : Signature) : Document :=
  .object
    [("package".toList, .string signature.package),
     ("funcName".toList, .string signature.function),
     ("input".toList, signature.inputs.toDocument),
     ("output".toList, signature.outputs.toDocument)]

def ofWritten? (written : Written) : Option Signature := do
  let fields ← written.fields?
    ["package".toList, "funcName".toList, "input".toList, "output".toList]
  match ← fields.mapM id with
  | [package, function, inputs, outputs] =>
      return ⟨← package.text?, ← function.text?, ← Written.list? Parameter.ofWritten? inputs,
        ← Written.list? Parameter.ofWritten? outputs⟩
  | _ => none

/-- The JSON text of signatures. -/
def listToJson (signatures : List Signature) : Text :=
  (Document.array (signatures.map toDocument)).write

/-- Reads the JSON text of signatures. -/
def listOfJson? (text : Text) : Option (List Signature) :=
  (Written.read? text).bind (Written.list? ofWritten?)

end Signature

end Reshape
