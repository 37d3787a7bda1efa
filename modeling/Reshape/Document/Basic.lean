import Reshape.Number.Basic

/-!
# Documents

A document is a JSON value.  An object is the list of its members in order;
`Members` holds the operations that keep its keys distinct: a member that is
set again keeps its place, a new one goes to the end, and the place of a removed
one is taken by the last.
-/

namespace Reshape

/-- A JSON value. -/
inductive Document where
  | null
  | bool (value : Bool)
  | number (value : Number)
  | string (value : Text)
  | array (items : List Document)
  | object (members : List (Text × Document))

instance : Inhabited Document := ⟨.null⟩

/-- The members of an object, in order. -/
abbrev Members := List (Text × Document)

namespace Members

/-- The value of a member. -/
def get? (members : Members) (key : Text) : Option Document :=
  members.lookup key

/-- Sets a member: in its place if the key is there, else at the end. -/
def insert (key : Text) (value : Document) : Members → Members
  | [] => [(key, value)]
  | (k, v) :: rest =>
      if k = key then (k, value) :: rest else (k, v) :: insert key value rest

/-- Sets the members one after the other, starting from no members. -/
def ofList (pairs : List (Text × Document)) : Members :=
  pairs.foldl (fun members (key, value) => insert key value members) []

/-- Removes a member; the last member takes its place. -/
def remove (key : Text) : Members → Members
  | [] => []
  | (k, v) :: rest =>
      if k = key then
        match rest.getLast? with
        | none => []
        | some last => last :: rest.dropLast
      else (k, v) :: remove key rest

end Members

namespace Document

/-- The items of an array. -/
def items? : Document → Option (List Document)
  | .array items => some items
  | _ => none

/-- The integer as a document. -/
def ofNat (n : Nat) : Document :=
  .number (.integer n)

end Document

end Reshape
