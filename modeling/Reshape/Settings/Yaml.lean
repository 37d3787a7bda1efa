import Reshape.Settings.Basic
import Reshape.Yaml.Node

/-!
# Settings in YAML

Settings are written as a mapping with the keys `coercions` and `max_depth`,
either of which may be left out.  An empty document, and a value that is not
written at all, count as an empty collection; an empty text in quotes does not.
-/

namespace Reshape

namespace Yaml

namespace Node

/-- The text of a scalar. -/
def text? : Node → Option Text
  | .scalar _ text => some text
  | _ => none

/-- The items of a sequence. -/
def items? : Node → Option (List Node)
  | .sequence items => some items
  | .scalar true [] => some []
  | _ => none

/-- The pairs of a mapping. -/
def pairs? : Node → Option (List (Node × Node))
  | .mapping pairs => some pairs
  | .scalar true [] => some []
  | _ => none

/-- The fields of a mapping by name.  Unknown keys are passed over, and a known
one may not be repeated. -/
def fields? (names : List Text) (node : Node) : Option (List (Option Node)) := do
  let pairs ← (← node.pairs?).mapM fun (key, value) => key.text?.map fun key => (key, value)
  names.mapM fun name =>
    match pairs.filter (·.1 = name) with
    | [] => some none
    | [(_, value)] => some (some value)
    | _ => none

/-- The value of a digit in a base of at most sixteen. -/
def digitIn? (base : Nat) (c : Char) : Option Nat :=
  (Text.hexValue? c).filter (· < base)

/-- The value of at least one digit, if it is below `2 ^ 64`. -/
def digits? (base : Nat) (digits : Text) : Option Nat := do
  if digits.isEmpty then none
  let values ← digits.mapM (digitIn? base)
  let value := values.foldl (fun n v => base * n + v) 0
  if value < Nat.pow 2 64 then some value else none

/-- A natural number below `2 ^ 64`: in decimal digits without a leading zero,
or in hexadecimal, octal or binary digits behind `0x`, `0o` or `0b`.  A plus
sign may lead. -/
def nat? : Node → Option Nat
  | .scalar true text =>
      let body := (Text.after? ['+'] text).getD text
      match body with
      | '0' :: 'x' :: rest => digits? 16 rest
      | '0' :: 'o' :: rest => digits? 8 rest
      | '0' :: 'b' :: rest => digits? 2 rest
      | ['0'] => some 0
      | '0' :: _ => none
      | body => digits? 10 body
  | _ => none

end Node

end Yaml

/-- Reads one coercion. -/
def Coercion.ofNode? (node : Yaml.Node) : Option Coercion := do
  match ← node.fields? ["type".toList, "convertFn".toList] with
  | [some type, some suffix] => return ⟨← type.text?, ← suffix.text?⟩
  | _ => none

namespace Settings

/-- Reads settings; a field that is left out has its standard value. -/
def ofNode? (node : Yaml.Node) : Option Settings := do
  match ← node.fields? ["coercions".toList, "max_depth".toList] with
  | [coercions, maxDepth] =>
      let list (node : Yaml.Node) : Option Coercions :=
        node.items?.bind (·.mapM Coercion.ofNode?)
      return ⟨← coercions.elim (some standard.coercions) list,
        ← maxDepth.elim (some standard.maxDepth) Yaml.Node.nat?⟩
  | _ => none

/-- Reads the YAML text of settings. -/
def ofYaml? (text : Text) : Option Settings := do
  match ← Yaml.read? text with
  | some node => ofNode? node
  | none => return standard

end Settings

end Reshape
