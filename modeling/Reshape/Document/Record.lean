import Reshape.Document.Written

/-!
# Records

Reading a JSON text as a record with known fields.  A record is written as an
object, in which unknown members are passed over whatever they hold and a known
one may not be repeated, or as an array of its fields in order, from which the
last ones may be missing.  Whether a missing field matters is for the reader of
that field to say.
-/

namespace Reshape

namespace Written

/-- The content of a string. -/
def text? : Written → Option Text
  | .string content => content
  | _ => none

/-- The items of an array. -/
def items? : Written → Option (List Written)
  | .array items => some items
  | _ => none

/-- A natural number below `2 ^ 64`, written as an integer. -/
def nat? : Written → Option Nat
  | .number literal =>
      match literal.value? with
      | some (.integer n) => if 0 ≤ n then some n.toNat else none
      | _ => none
  | _ => none

/-- The values under one key. -/
def under (key : Text) (members : List (Option Text × Written)) : List Written :=
  members.filterMap fun (k, value) => if k = some key then some value else none

/-- The fields of a record by name. -/
def fields? (names : List Text) : Written → Option (List (Option Written))
  | .object members =>
      if members.any (·.1.isNone) then none
      else
        names.mapM fun name =>
          match under name members with
          | [] => some none
          | [value] => some (some value)
          | _ => none
  | .array items =>
      if names.length < items.length then none
      else some (names.zipIdx.map fun (_, i) => items[i]?)
  | _ => none

/-- Reads every item of an array. -/
def list? {α : Type} (item? : Written → Option α) (written : Written) : Option (List α) :=
  written.items?.bind (·.mapM item?)

end Written

end Reshape
