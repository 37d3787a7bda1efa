import Reshape.Document.Basic

/-!
# Columns and rows

An object whose members are arrays is a table given by columns.  `rows` turns
it into the list of its rows: row `i` holds the members whose array has an item
`i`, in the order of the columns.  Grouping replaces columns by rows, and
grouping at a level does so under several nested axes.
-/

namespace Reshape

namespace Members

/-- The length of the longest column.  Members that are not arrays are no
columns. -/
def height (columns : Members) : Nat :=
  columns.foldr (fun (_, column) n => max ((column.items?.getD []).length) n) 0

/-- The cells with index `i`. -/
def row (columns : Members) (i : Nat) : Members :=
  columns.filterMap fun (key, column) =>
    (column.items?.bind (·[i]?)).map fun cell => (key, cell)

/-- All rows of a table given by columns. -/
def rows (columns : Members) : List Members :=
  (List.range columns.height).map columns.row

end Members

namespace Document

/-- The rows of an object.  An array counts as grouped already; other values
have no rows. -/
def group? : Document → Option Document
  | .object columns => some (.array ((Members.rows columns).map .object))
  | .array items => some (.array items)
  | _ => none

/-- Takes rows `levels` times before the last grouping. -/
def groupPlus? : Nat → Document → Option Document
  | 0, d => group? d
  | levels + 1, .object columns =>
      some (.array ((Members.rows columns).filterMap fun row => groupPlus? levels (.object row)))
  | _ + 1, .array items => some (.array items)
  | _ + 1, _ => none

/-- Replaces the arrays among the items of an array by their items. -/
def flatten : Document → Document
  | .array items =>
      .array (items.flatMap fun item => (item.items?).getD [item])
  | d => d

end Document

end Reshape
