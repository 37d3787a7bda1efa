import Reshape.Document.Basic

/-!
# Merge patches

A patch that is not an object replaces the document.  A patch that is an object
changes the members it names: `null` removes a member, and any other value
patches the member in turn, where a missing member counts as `null` and a
document that is not an object counts as an object without members.
-/

namespace Reshape

namespace Document

/-- The members of an object, and none for any other document. -/
def membersOrNone : Document → Members
  | .object members => members
  | _ => []

mutual

/-- Applies a patch to a document. -/
def patch (target : Document) : Document → Document
  | .object changes => .object (patchMembers target.membersOrNone changes)
  | replacement => replacement

/-- Applies the changes of a patch to the members of an object, in order. -/
def patchMembers (members : Members) : List (Text × Document) → Members
  | [] => members
  | (key, .null) :: rest => patchMembers (members.remove key) rest
  | (key, change) :: rest =>
      patchMembers
        (members.insert key (patch ((members.get? key).getD .null) change)) rest

end

end Document

end Reshape
