import Reshape.Path.Basic

/-!
# Target trees

The target paths of a rule set, merged into one tree.  Keys stand in the order
in which they were first mentioned.  A slot is a leaf, which holds the source of
a value, or a branch.  The first leaf at a place stays, a branch takes the place
of a leaf, and a leaf never takes the place of a branch.
-/

namespace Reshape

/-- What stands under a key of a target tree. -/
inductive Slot where
  | leaf (source : Text)
  | branch (entries : List (Text × Slot))

/-- The keys of one level of a target tree, in order. -/
abbrev TargetTree := List (Text × Slot)

namespace Slot

/-- The entries below a slot. -/
def entries : Slot → TargetTree
  | .leaf _ => []
  | .branch entries => entries

def isBranch : Slot → Bool
  | .leaf _ => false
  | .branch _ => true

end Slot

namespace TargetTree

/-- Changes the slot under a key, or appends a new one. -/
def alter (key : Text) (f : Option Slot → Slot) : TargetTree → TargetTree
  | [] => [(key, f none)]
  | (k, slot) :: rest =>
      if k = key then (k, f (some slot)) :: rest else (k, slot) :: alter key f rest

/-- Binds a source at the place that the keys lead to. -/
def insert (source : Text) : List Text → TargetTree → TargetTree
  | [], tree => tree
  | [key], tree => alter key (fun slot => slot.getD (.leaf source)) tree
  | key :: next :: rest, tree =>
      alter key
        (fun slot => .branch (insert source (next :: rest) ((slot.map Slot.entries).getD [])))
        tree

end TargetTree

end Reshape
