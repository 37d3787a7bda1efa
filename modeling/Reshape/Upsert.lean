/-!
# Upserting

Lists whose elements have an identity that is coarser than equality.  Upserting
an element replaces the first element with its identity, in place, and appends
it if there is none, so that a list without two elements of one identity stays
such a list.
-/

namespace Reshape

variable {α : Type}

/-- Replaces the first element that is the `same` as `x`, or appends `x`. -/
def upsert (same : α → α → Bool) (x : α) : List α → List α
  | [] => [x]
  | y :: rest => if same y x then x :: rest else y :: upsert same x rest

/-- Upserts the elements of a list, one after the other. -/
def upsertAll (same : α → α → Bool) (list : List α) (xs : List α) : List α :=
  xs.foldl (fun list x => upsert same x list) list

/-- One element of each identity: the place of the first, the value of the
last. -/
def collect (same : α → α → Bool) (xs : List α) : List α :=
  upsertAll same [] xs

/-- The distinct elements of a list, in order of first occurrence. -/
def distinct [DecidableEq α] (xs : List α) : List α :=
  xs.foldl (fun seen x => if x ∈ seen then seen else seen ++ [x]) []

end Reshape
