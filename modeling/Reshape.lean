import Reshape.Document.Patch
import Reshape.Function.Interchange
import Reshape.Function.Invocation
import Reshape.Path.Casing
import Reshape.Rule.Interchange
import Reshape.Rule.Lines
import Reshape.Settings.File
import Reshape.Proofs.PlainPath
import Reshape.Proofs.Reading
import Reshape.Proofs.TargetTree
import Reshape.Proofs.Compile
import Reshape.Proofs.Columns
import Reshape.Proofs.Shape
import Reshape.Proofs.Outline
import Reshape.Proofs.Binding
import Reshape.Proofs.Invocation
import Reshape.Proofs.Frame
import Reshape.Proofs.RowMapping
import Reshape.Proofs.Route
import Reshape.Proofs.Selection
import Reshape.Proofs.Signature
import Reshape.Proofs.Discovery
import Reshape.Proofs.Candidates
import Reshape.Proofs.Skeleton
import Reshape.Proofs.Narrowing
import Reshape.Proofs.Lines
import Reshape.Proofs.Derivation
import Reshape.Proofs.Reversal
import Reshape.Proofs.Grammar
import Reshape.Proofs.NormalForm
import Reshape.Proofs.Edits
import Reshape.Proofs.Transposition
import Reshape.Proofs.RepeatedNarrowing
import Reshape.Proofs.Interchange
import Reshape.Proofs.PatchAlgebra
import Reshape.Proofs.CoercionSuffix
import Reshape.Proofs.Addressing
import Reshape.Proofs.FaultPlace
import Reshape.Proofs.Nesting
import Reshape.Proofs.ParameterForm
import Reshape.Proofs.TreeRecord
import Reshape.Proofs.IntegerText
import Reshape.Proofs.Casing
import Reshape.Proofs.SnakeForm
import Reshape.Proofs.Location
