import Reshape.Proofs.Columns

/-!
# Grouping as a transposition

An object whose members are nested arrays is a table whose cells have a key first and then
indices.  Grouping it at some level gives nested arrays of rows, in which a cell has the
same indices first and then the key.  The arrays may be ragged, and a member may be nested
less deep than the others.

* `Document.itemAt?` is what some indices lead to, and `Members.crossSection` the members
  that have something at some indices.
* `Document.itemAt?_transposed`: the entry of the grouped table at some indices is the
  cross-section of the members at the same indices, grouped at the levels that are left.
* `Document.groupPlus?_transposes` puts this together for every cell, the length of every
  array and the order of every row.
-/

namespace Reshape

/-- What a list of indices leads to, through nested arrays. -/
def Document.itemAt? : List Nat → Document → Option Document
  | [], d => some d
  | i :: rest, d => (d.items?.bind (·[i]?)).bind (Document.itemAt? rest)

/-! ## Cross-sections -/

namespace Members

/-- The members that have something at the indices, each with what it has there. -/
def crossSection (columns : Members) (indices : List Nat) : Members :=
  columns.filterMap fun (key, column) => (column.itemAt? indices).map fun cell => (key, cell)

/-- The greatest length of an array that a member has at the indices, and zero if no member
has an array there. -/
def longest (columns : Members) (indices : List Nat) : Nat :=
  (columns.filterMap fun (_, column) =>
    (column.itemAt? indices).bind fun cell => cell.items?.map List.length).foldr max 0

variable {columns : Members} {indices : List Nat}

theorem crossSection_nil (columns : Members) : columns.crossSection [] = columns := by
  simp [crossSection, Document.itemAt?]

theorem crossSection_cons (columns : Members) (i : Nat) (rest : List Nat) :
    columns.crossSection (i :: rest) = (columns.row i).crossSection rest := by
  rw [crossSection, crossSection, row, List.filterMap_filterMap]
  refine List.filterMap_congr fun member _ => ?_
  obtain ⟨key, column⟩ := member
  cases hcell : column.items?.bind (·[i]?) <;> simp [Document.itemAt?, hcell]

theorem row_eq_nil_iff {i : Nat} : columns.row i = [] ↔ columns.height ≤ i := by
  rw [← not_lt, lt_height_iff, row, List.filterMap_eq_nil_iff]
  push Not
  refine forall₂_congr fun member _ => ?_
  cases member.2.items? <;> simp

theorem height_crossSection (columns : Members) (indices : List Nat) :
    (columns.crossSection indices).height = columns.longest indices := by
  induction columns with
  | nil => rfl
  | cons member columns ih =>
    obtain ⟨key, column⟩ := member
    rw [crossSection, height, longest] at ih ⊢
    cases hcell : column.itemAt? indices with
    | none => simpa [hcell] using ih
    | some cell =>
      cases hitems : cell.items? with
      | none => simpa [hcell, hitems] using ih
      | some items => simp [hcell, hitems, ih]

theorem keys_crossSection_sublist (columns : Members) (indices : List Nat) :
    (columns.crossSection indices).keys.Sublist columns.keys := by
  induction columns with
  | nil => exact .slnil
  | cons member columns ih =>
    obtain ⟨key, column⟩ := member
    cases hcell : column.itemAt? indices with
    | none => simpa [crossSection, keys, hcell] using ih.cons key
    | some cell => simpa [crossSection, keys, hcell] using ih

/-- A cell of a cross-section is the cell of the column with its key. -/
theorem get?_crossSection (hkeys : columns.keys.Nodup) (indices : List Nat) (key : Text) :
    (columns.crossSection indices).get? key =
      (columns.get? key).bind (Document.itemAt? indices) := by
  ext cell
  rw [get?_eq_some_iff ((keys_crossSection_sublist columns indices).nodup hkeys), crossSection,
    List.mem_filterMap, Option.bind_eq_some_iff]
  constructor
  · rintro ⟨⟨other, column⟩, hmem, hcell⟩
    obtain ⟨found, hfound, hpair⟩ := Option.map_eq_some_iff.1 hcell
    obtain ⟨rfl, rfl⟩ := Prod.mk.inj hpair
    exact ⟨column, (get?_eq_some_iff hkeys).2 hmem, hfound⟩
  · rintro ⟨column, hcolumn, hcell⟩
    exact ⟨(key, column), (get?_eq_some_iff hkeys).1 hcolumn, by simp [hcell]⟩

theorem crossSection_ne_nil_iff (hkeys : columns.keys.Nodup) :
    columns.crossSection indices ≠ [] ↔
      ∃ key column, columns.get? key = some column ∧ (column.itemAt? indices).isSome := by
  rw [Ne, crossSection, List.filterMap_eq_nil_iff]
  push Not
  constructor
  · rintro ⟨⟨key, column⟩, hmem, hcell⟩
    refine ⟨key, column, (get?_eq_some_iff hkeys).2 hmem, ?_⟩
    simpa [Option.isSome_iff_ne_none] using hcell
  · rintro ⟨key, column, hcolumn, hcell⟩
    refine ⟨(key, column), (get?_eq_some_iff hkeys).1 hcolumn, ?_⟩
    simpa [Option.isSome_iff_ne_none] using hcell

end Members

/-! ## Grouping -/

namespace Document

/-- The rows of a table, the rows of these rows, and so on for a number of axes. -/
def transposed : Nat → Members → Document
  | 0, columns => .object columns
  | axes + 1, columns => .array (columns.rows.map (transposed axes))

/-- No row is lost when rows are grouped, since the rows of an object are objects. -/
theorem groupAxes_object (axes : Nat) (columns : Members) :
    groupAxes axes (.object columns) = some (transposed axes columns) := by
  induction axes generalizing columns with
  | zero => rfl
  | succ axes ih =>
    rw [groupAxes_succ_object, filterMap_eq_map_of_some fun row _ => ih row]
    rfl

theorem itemAt?_transposed_cons (axes : Nat) (columns : Members) (i : Nat) (rest : List Nat) :
    (transposed (axes + 1) columns).itemAt? (i :: rest) =
      if columns.row i = [] then none else (transposed axes (columns.row i)).itemAt? rest := by
  rw [itemAt?, transposed, items?, Option.bind_some, List.getElem?_map, Members.rows,
    List.getElem?_map]
  by_cases hrow : columns.row i = []
  · have hi := Members.row_eq_nil_iff.1 hrow
    simp [hrow, hi]
  · have hi : i < columns.height := not_le.1 (mt Members.row_eq_nil_iff.2 hrow)
    simp [hrow, hi]

/-- Where some member has something, the grouped table has the cross-section. -/
theorem itemAt?_transposed (axes : Nat) {columns : Members} {indices : List Nat}
    (h : columns.crossSection indices ≠ []) :
    (transposed (indices.length + axes) columns).itemAt? indices =
      some (transposed axes (columns.crossSection indices)) := by
  induction indices generalizing columns with
  | nil => rw [Members.crossSection_nil, List.length_nil, Nat.zero_add, itemAt?]
  | cons i rest ih =>
    rw [Members.crossSection_cons] at h ⊢
    have hrow : columns.row i ≠ [] := fun hnil => h (by rw [hnil]; rfl)
    rw [List.length_cons, Nat.add_right_comm, itemAt?_transposed_cons, if_neg hrow, ih h]

/-- Where no member has anything, the grouped table has nothing. -/
theorem itemAt?_transposed_eq_none (axes : Nat) {columns : Members} {indices : List Nat}
    (hne : indices ≠ []) (h : columns.crossSection indices = []) :
    (transposed (indices.length + axes) columns).itemAt? indices = none := by
  induction indices generalizing columns with
  | nil => exact absurd rfl hne
  | cons i rest ih =>
    rw [Members.crossSection_cons] at h
    rw [List.length_cons, Nat.add_right_comm, itemAt?_transposed_cons]
    split
    · rfl
    · rename_i hrow
      have hrest : rest ≠ [] := by
        rintro rfl
        exact hrow (by rwa [Members.crossSection_nil] at h)
      exact ih hrest h

/-- What the grouped table has at some indices is the cross-section at these indices. -/
theorem eq_transposed_of_itemAt? {axes : Nat} {columns : Members} {indices : List Nat}
    {entry : Document}
    (h : (transposed (indices.length + axes) columns).itemAt? indices = some entry) :
    entry = transposed axes (columns.crossSection indices) := by
  by_cases hne : indices = []
  · subst hne
    rw [List.length_nil, Nat.zero_add, itemAt?] at h
    rw [Members.crossSection_nil, Option.some.inj h]
  · have hcells : columns.crossSection indices ≠ [] := by
      intro hnil
      rw [itemAt?_transposed_eq_none _ hne hnil] at h
      simp at h
    rw [itemAt?_transposed _ hcells] at h
    exact (Option.some.inj h).symm

theorem isSome_itemAt?_transposed (axes : Nat) {columns : Members} (hkeys : columns.keys.Nodup)
    {indices : List Nat} (hne : indices ≠ []) :
    ((transposed (indices.length + axes) columns).itemAt? indices).isSome ↔
      ∃ key column, columns.get? key = some column ∧ (column.itemAt? indices).isSome := by
  rw [← Members.crossSection_ne_nil_iff hkeys]
  constructor
  · intro hsome hnil
    rw [itemAt?_transposed_eq_none _ hne hnil] at hsome
    simp at hsome
  · intro hcells
    rw [itemAt?_transposed _ hcells]
    rfl

/-- With an index for each axis, a cell is where the member under its key has it. -/
theorem exists_row_transposed_iff {columns : Members} (hkeys : columns.keys.Nodup)
    (indices : List Nat) (key : Text) (cell : Document) :
    (∃ row, (transposed indices.length columns).itemAt? indices = some (.object row) ∧
        Members.get? row key = some cell) ↔
      ∃ column, columns.get? key = some column ∧ column.itemAt? indices = some cell := by
  rw [← Option.bind_eq_some_iff, ← Members.get?_crossSection hkeys]
  constructor
  · rintro ⟨row, hrow, hget⟩
    have heq : Document.object row = transposed 0 (columns.crossSection indices) :=
      eq_transposed_of_itemAt? hrow
    rwa [← Document.object.inj heq]
  · intro hget
    have hcells : columns.crossSection indices ≠ [] := List.ne_nil_of_mem (mem_of_lookup hget)
    exact ⟨_, itemAt?_transposed 0 hcells, hget⟩

/-- Grouping a table at a level takes the indices of every cell before its key, and loses
no cell.

* With an index for each level and one more, the grouped table has a row with a cell under a
  key exactly if the member under the key has this cell at the same indices.  The keys of the
  row stand in the order of the members.
* With fewer indices, what it has is an array, as long as the longest array that a member
  has at the same indices.  It has something there exactly if some member has. -/
theorem groupPlus?_transposes {columns : Members} (hkeys : columns.keys.Nodup) (levels : Nat) :
    ∃ grouped, groupPlus? levels (.object columns) = some grouped ∧
      (∀ indices : List Nat, indices.length = levels + 1 →
        (∀ key cell,
          (∃ row, grouped.itemAt? indices = some (.object row) ∧ Members.get? row key = some cell) ↔
            ∃ column, columns.get? key = some column ∧ column.itemAt? indices = some cell) ∧
        ∀ entry, grouped.itemAt? indices = some entry →
          ∃ row : Members, entry = .object row ∧ row.keys.Sublist columns.keys) ∧
      ∀ indices : List Nat, indices.length ≤ levels →
        (∀ entry, grouped.itemAt? indices = some entry →
          ∃ items, entry = .array items ∧ items.length = columns.longest indices) ∧
        (indices ≠ [] → ((grouped.itemAt? indices).isSome ↔
          ∃ key column, columns.get? key = some column ∧ (column.itemAt? indices).isSome)) := by
  refine ⟨transposed (levels + 1) columns, groupAxes_object (levels + 1) columns, ?_, ?_⟩
  · intro indices hlength
    rw [← hlength]
    refine ⟨exists_row_transposed_iff hkeys indices, ?_⟩
    intro entry hentry
    have heq : entry = transposed 0 (columns.crossSection indices) :=
      eq_transposed_of_itemAt? hentry
    exact ⟨_, heq, Members.keys_crossSection_sublist columns indices⟩
  · intro indices hlength
    -- one axis at least is left below the indices
    obtain ⟨axes, rfl⟩ := Nat.exists_eq_add_of_le hlength
    rw [Nat.add_assoc]
    refine ⟨?_, isSome_itemAt?_transposed (axes + 1) hkeys⟩
    intro entry hentry
    refine ⟨_, eq_transposed_of_itemAt? hentry, ?_⟩
    rw [List.length_map, Members.rows, List.length_map, List.length_range,
      Members.height_crossSection]

/-- Ragged columns of two levels, and a member that is not an array. -/
def raggedColumns : Members :=
  [("size".toList, .array [.array [], .array [.bool true, .null]]),
   ("unit".toList, .string "cm".toList),
   ("side".toList, .array [.array [.bool false], .null, .array []])]

theorem groupPlus?_transposes_ragged :
    ∃ grouped, groupPlus? 1 (.object raggedColumns) = some grouped ∧
      (∃ row, grouped.itemAt? [0, 0] = some (.object row) ∧
        Members.get? row "side".toList = some (.bool false)) ∧
      (∃ row, grouped.itemAt? [1, 1] = some (.object row) ∧
        Members.get? row "size".toList = some .null) ∧
      (∀ entry, grouped.itemAt? [] = some entry → ∃ items, entry = .array items ∧
        items.length = 3) ∧
      (∀ entry, grouped.itemAt? [2] = some entry → ∃ items, entry = .array items ∧
        items.length = 0) ∧
      (grouped.itemAt? [2]).isSome := by
  obtain ⟨grouped, hgrouped, hcells, harrays⟩ :=
    groupPlus?_transposes (show raggedColumns.keys.Nodup by decide) 1
  refine ⟨grouped, hgrouped, ?_, ?_, ?_, ?_, ?_⟩
  · exact ((hcells [0, 0] rfl).1 _ _).2 ⟨_, rfl, rfl⟩
  · exact ((hcells [1, 1] rfl).1 _ _).2 ⟨_, rfl, rfl⟩
  · exact (harrays [] (by decide)).1
  · exact (harrays [2] (by decide)).1
  · exact ((harrays [2] (by decide)).2 (by decide)).2 ⟨"side".toList, _, rfl, rfl⟩

end Document

end Reshape
