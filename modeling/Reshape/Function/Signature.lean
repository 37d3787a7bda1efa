import Reshape.Function.Parameter

/-!
# Signatures

A function together with its inputs and outputs, as the rules describe it.
-/

namespace Reshape

/-- A function, its inputs and its outputs. -/
structure Signature where
  package : Text
  function : Text
  inputs : Parameters
  outputs : Parameters
deriving DecidableEq, Repr

namespace Signature

/-- The function with its package. -/
def qualified (signature : Signature) : Text :=
  qualifiedName signature.package signature.function

/-- The namespace of the rules about a function. -/
def space (signature : Signature) : Text :=
  Path.functions ++ signature.qualified

/-- The signature of a group of parameters of one function. -/
def ofGroup? : Parameters → Option Signature
  | [] => none
  | first :: rest =>
      some ⟨first.package, first.function, Parameters.inputs (first :: rest),
        Parameters.outputs (first :: rest)⟩

end Signature

/-- The signatures that parameters describe, one for each function. -/
def Parameters.signatures (parameters : Parameters) : List Signature :=
  parameters.groups.filterMap fun (_, group) => Signature.ofGroup? group

/-- The signatures that rules describe. -/
def RuleSet.signatures (rules : RuleSet) : List Signature :=
  rules.parameters.signatures

end Reshape
