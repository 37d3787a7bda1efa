import Reshape.Proofs.Shape

/-!
# Mapping the elements of an array

Rules of the form `p.#.f:q.#.g` send fields of the elements of one array to fields of
the elements of another.  Compiled, each field becomes a column, and the columns are
put together to rows.  A column leaves out the elements that lack its field, so its
cells do not stand where the elements stand.

* `RowMapping.get_rules` gives the value of the compiled rules as a table of columns.
* `RowMapping.row_inj` and `getElem?_filterMap_eq_iff` compare the row at an index with
  the element at that index.
* `RowMapping.rows_of_compile` says what every row holds, and that the rows are those of
  the elements if and only if no element lacks a field that a later element has.
-/

namespace Reshape

/-! ## Cells without gaps -/

/-- Leaving out missing values moves no value if and only if nothing is missing before a
value that is there. -/
theorem getElem?_filterMap_eq_iff {α β : Type} {f : α → Option β} {xs : List α} :
    (∀ j : Nat, (xs.filterMap f)[j]? = xs[j]?.bind f) ↔
      xs.Pairwise fun earlier later => (f later).isSome → (f earlier).isSome := by
  constructor
  · intro h
    rw [List.pairwise_iff_getElem]
    intro i j hi hj hij hlater
    have hcell : (xs.filterMap f)[j]?.isSome := by
      rw [h j, List.getElem?_eq_getElem hj]
      exact hlater
    have hlength : j < (xs.filterMap f).length := by simpa using hcell
    have hearlier := h i
    rw [List.getElem?_eq_getElem hi, Option.bind_some,
      List.getElem?_eq_getElem (by omega)] at hearlier
    simp [← hearlier]
  · intro h
    induction xs with
    | nil => simp
    | cons x xs ih =>
      rw [List.pairwise_cons] at h
      cases hx : f x with
      | none =>
        -- nothing is there behind `x` either
        have hnone : ∀ y ∈ xs, f y = none := by
          intro y hy
          have hy := h.1 y hy
          simpa [hx] using hy
        have hempty : (x :: xs).filterMap f = [] := by
          simpa [List.filterMap_eq_nil_iff, hx] using hnone
        intro j
        rw [hempty, List.getElem?_nil]
        cases hj : (x :: xs)[j]? with
        | none => rfl
        | some y =>
          rcases List.mem_cons.1 (List.mem_of_getElem? hj) with rfl | hmem
          · exact hx.symm
          · exact (hnone y hmem).symm
      | some value =>
        rw [List.filterMap_cons_some hx]
        intro j
        cases j with
        | zero => simp [hx]
        | succ j => simpa using ih h.2 j

/-! ## The rules -/

/-- Rules that send fields of the elements of an array to fields of the elements of
another array. -/
structure RowMapping where
  /-- The member that holds the array to read. -/
  source : Text
  /-- The member that holds the array to write. -/
  target : Text
  /-- The field that a column is read from and the field that it is written to. -/
  columns : List (Text × Text)
  source_isPlain : source.isPlain = true
  target_isPlain : target.isPlain = true
  columns_ne_nil : columns ≠ []
  columns_isPlain : ∀ column ∈ columns, column.1.isPlain = true ∧ column.2.isPlain = true
  names_nodup : (columns.map (·.2)).Nodup

/-- The values of a field, in the order of the elements that have it. -/
def Members.cells (field : Text) (elements : List Members) : List Document :=
  elements.filterMap (Members.get? · field)

namespace RowMapping

/-- The rule of a column. -/
def rule (mapping : RowMapping) (column : Text × Text) : Rule :=
  ⟨⟨Path.ofSegments [mapping.source, Path.each, column.1], []⟩,
    ⟨Path.ofSegments [mapping.target, Path.each, column.2], []⟩⟩

def rules (mapping : RowMapping) : RuleSet :=
  mapping.columns.map mapping.rule

/-- The row with the given values of the fields.  Fields without a value are left
out. -/
def row (mapping : RowMapping) (value? : Text → Option Document) : Members :=
  mapping.columns.filterMap fun column => (value? column.1).map (column.2, ·)

variable (mapping : RowMapping)

/-! ## The tree and its expression -/

theorem isPath_source {column : Text × Text} (h : column ∈ mapping.columns) :
    Shape.isPath [mapping.source, Path.each, column.1] = true := by
  simp [Shape.isPath, mapping.source_isPlain, (mapping.columns_isPlain column h).1]

theorem isPath_target {column : Text × Text} (h : column ∈ mapping.columns) :
    Shape.isPath [mapping.target, Path.each, column.2] = true := by
  simp [Shape.isPath, mapping.target_isPlain, (mapping.columns_isPlain column h).2]

theorem steps?_rule {column : Text × Text} (h : column ∈ mapping.columns) :
    Path.steps? ((mapping.rule column).coercedSource .standard) =
      some [.key mapping.source, .each, .key column.1] := by
  have hpath := mapping.isPath_source h
  have hsource := Path.ne_each_of_isPlain mapping.source_isPlain
  have hfield := Path.ne_each_of_isPlain (mapping.columns_isPlain column h).1
  rw [Rule.steps?_coercedSource, Rule.steps?, rule,
    if_neg (Shape.ofSegments_ne_nil (by simp) hpath), Shape.steps?_ofSegments (by simp) hpath]
  simp [Segment.ofKey, hsource, hfield, Modifier.ofType?, Modifier.byType, Text.foldCase]

/-- The leaves of the level that describes an element. -/
def leaves : TargetTree :=
  mapping.columns.map fun column =>
    (column.2, .leaf ((mapping.rule column).coercedSource .standard))

theorem isPlain_leaves : TargetTree.IsPlain mapping.leaves := by
  have hkeys : TargetTree.keys mapping.leaves = mapping.columns.map (·.2) := by
    simp [leaves, TargetTree.keys]
  refine ⟨by simpa [leaves] using mapping.columns_ne_nil, hkeys ▸ mapping.names_nodup, ?_⟩
  rw [hkeys]
  intro name hname
  obtain ⟨column, hcolumn, rfl⟩ := List.mem_map.1 hname
  exact (mapping.columns_isPlain column hcolumn).2

/-- Leaves under distinct keys stand beside each other. -/
theorem ofInserts_singletons {entries : List (Text × Text)} (h : (entries.map (·.1)).Nodup) :
    TargetTree.ofInserts (entries.map fun entry => ([entry.1], entry.2)) =
      entries.map fun entry => (entry.1, .leaf entry.2) := by
  induction entries using List.reverseRecOn with
  | nil => rfl
  | append_singleton entries entry ih =>
    rw [List.map_append, List.map_singleton, List.nodup_append] at h
    rw [List.map_append, List.map_singleton, TargetTree.ofInserts_append, ih h.1, List.map_append,
      List.map_singleton, TargetTree.insert, ← List.append_nil (entries.map _),
      TargetTree.alter_append_of_notMem]
    · simp [TargetTree.alter]
    · intro hmem
      have hkey : entry.1 ∈ entries.map (·.1) := by simpa [TargetTree.keys] using hmem
      exact h.2.2 entry.1 hkey entry.1 (by simp) rfl

/-- One array, whose elements have the leaves. -/
def tree : Slot :=
  .branch [(mapping.target, .branch [(Path.each, .branch mapping.leaves)])]

theorem branch_fields_rules :
    Slot.branch (RuleSet.fields .standard mapping.rules) = mapping.tree := by
  have hplacements : RuleSet.placements .standard mapping.rules =
      (((mapping.columns.map fun column =>
            (column.2, (mapping.rule column).coercedSource .standard)).map
          fun entry => ([entry.1], entry.2)).map
        fun entry => (Path.each :: entry.1, entry.2)).map
      fun entry => (mapping.target :: entry.1, entry.2) := by
    simp only [RuleSet.placements, rules, List.map_map]
    apply List.map_congr_left
    intro column hcolumn
    have hsegments := Shape.segments_of_isPath (by simp) (mapping.isPath_target hcolumn)
    simp [rule, hsegments]
  have hnodup : ((mapping.columns.map fun column =>
      (column.2, (mapping.rule column).coercedSource .standard)).map (·.1)).Nodup := by
    simpa [Function.comp_def] using mapping.names_nodup
  rw [RuleSet.fields, hplacements, TargetTree.ofInserts_map_cons, TargetTree.ofInserts_map_cons,
    ofInserts_singletons hnodup, List.map_map, tree]
  · rfl
  · simpa using mapping.columns_ne_nil
  · exact List.forall_mem_map.2 (by simp)
  · simpa using mapping.columns_ne_nil
  · exact List.forall_mem_map.2 (by simp)

theorem isPlain_top : TargetTree.IsPlain
    [(mapping.target, Slot.branch [(Path.each, .branch mapping.leaves)])] :=
  ⟨by simp, by simp [TargetTree.keys], by simp [TargetTree.keys, mapping.target_isPlain]⟩

theorem every_tree : mapping.tree.Every TargetTree.IsRegular Path.IsReadable := by
  have hleaves : ∀ entry ∈ mapping.leaves,
      entry.2.Every TargetTree.IsRegular Path.IsReadable := by
    intro entry hentry
    obtain ⟨column, hcolumn, rfl⟩ := List.mem_map.1 hentry
    rw [Slot.Every, Path.IsReadable, mapping.steps?_rule hcolumn]
    rfl
  simp only [tree, Slot.Every, TargetTree.Every, and_true]
  exact ⟨.inl mapping.isPlain_top, .inr ⟨_, rfl⟩, .inl mapping.isPlain_leaves,
    TargetTree.every_iff.2 hleaves⟩

/-- The expression of the rules: the columns, and their grouping into rows. -/
theorem stages_tree :
    mapping.tree.stages false 0 [] =
      [.object [(mapping.target,
        [.object (mapping.columns.map fun column =>
            (column.2, [.path [.key mapping.source, .each, .key column.1]])),
          TargetTree.groupingStage 1])]] := by
  have htarget := Path.ne_each_of_isPlain mapping.target_isPlain
  have hroot : ([] : Text) ≠ Path.each := by decide
  rw [tree, Slot.stages_of_isPlain mapping.isPlain_top, List.map_singleton, Slot.stages_each,
    Slot.stages_of_isPlain mapping.isPlain_leaves]
  have hmembers : mapping.leaves.map (fun entry =>
      (entry.1, entry.2.stages (decide (Path.each = Path.each)) (0 + 1) entry.1)) =
      mapping.columns.map fun column =>
        (column.2, [.path [.key mapping.source, .each, .key column.1]]) := by
    rw [leaves, List.map_map]
    apply List.map_congr_left
    intro column hcolumn
    simp [Slot.stages, mapping.steps?_rule hcolumn]
  simpa [htarget, hroot, Slot.opened, Slot.isBranch] using hmembers

theorem compile_rules :
    mapping.rules.compile .standard = mapping.tree.valueText false 0 [] := by
  rw [← branch_fields_rules]
  apply RuleSet.compile_eq
  · simpa [rules] using mapping.columns_ne_nil
  all_goals
    intro rule hrule
    obtain ⟨column, hcolumn, rfl⟩ := List.mem_map.1 hrule
    have hpath := mapping.isPath_target hcolumn
  · have hsegments := Shape.segments_of_isPath (by simp) hpath
    apply Rule.targetKeys_of_segments hsegments mapping.target_isPlain
    exact hsegments.symm ▸ Shape.notMem_of_isPath hpath (by decide) (by decide)
  · exact Shape.ofSegments_ne_nil (by simp) hpath

theorem arrays_tree : mapping.tree.arrays = 1 := by
  have hevery : (Slot.branch mapping.leaves).Every TargetTree.IsPlain fun _ => True :=
    ⟨mapping.isPlain_leaves, TargetTree.every_iff.2 (List.forall_mem_map.2 fun _ _ => trivial)⟩
  have hleaves := TargetTree.arrays_of_isPlain hevery
  rw [Slot.arrays] at hleaves
  simp [tree, Slot.arrays, TargetTree.arrays, Slot.isBranch, hleaves,
    Path.ne_each_of_isPlain mapping.target_isPlain]

theorem depth_tree : Expression.depth (mapping.tree.stages false 0 []) = 2 := by
  have hcolumns : ∀ columns : List (Text × Text),
      Stage.depthOfMembers (columns.map fun column =>
        (column.2, [.path [.key mapping.source, .each, .key column.1]])) = 0 := by
    intro columns
    induction columns with
    | nil => rfl
    | cons column columns ih => simp [Stage.depthOfMembers, Expression.depth, Stage.depth, ih]
  rw [stages_tree]
  simp [Expression.depth, Stage.depth, Stage.depthOfMembers, hcolumns,
    TargetTree.groupingStage]

/-! ## The table -/

/-- The columns that the fields of the elements make. -/
def table (elements : List Members) : Members :=
  mapping.columns.map fun column => (column.2, .array (Members.cells column.1 elements))

/-- Reading a field of all elements gives its cells. -/
theorem evalPath?_field {document : Members} {elements : List Members} {source : Text}
    (h : document.get? source = some (.array (elements.map .object))) (field : Text) :
    evalPath? [.key source, .each, .key field] (.object document) =
      some (.array (Members.cells field elements)) := by
  have hfield : evalPath? [.key field] ∘ Document.object = (Members.get? · field) := by
    funext element
    cases hvalue : Members.get? element field <;> simp [evalPath?, Document.child?, hvalue]
  rw [evalPath?, Document.child?, h, Option.bind_some, evalPath?, Document.items?, Option.map_some,
    List.filterMap_map, hfield, Members.cells]

variable {document : Members} {elements : List Members}
  (hsource : document.get? mapping.source = some (.array (elements.map .object)))

include hsource

theorem eval?_tree :
    Expression.eval? (mapping.tree.stages false 0 []) (.object document) =
      some (.object [(mapping.target, .array ((mapping.table elements).rows.map .object))]) := by
  have hmembers : Stage.evalMembers (mapping.columns.map fun column =>
        (column.2, [.path [.key mapping.source, .each, .key column.1]])) (.object document) =
      mapping.table elements := by
    rw [table]
    generalize mapping.columns = columns
    induction columns with
    | nil => rfl
    | cons column columns ih =>
      rw [List.map_cons, Stage.evalMembers, Expression.eval?, Stage.eval?,
        evalPath?_field hsource, ih, List.map_cons]
      rfl
  have hnodup : ((mapping.table elements).map (·.1)).Nodup := by
    simpa [table, Function.comp_def] using mapping.names_nodup
  have hsingle : ∀ value, Members.ofList [(mapping.target, value)] = [(mapping.target, value)] :=
    fun _ => rfl
  rw [stages_tree]
  simp [Expression.eval?, Expression.pass?, Stage.eval?, Stage.evalMembers, hmembers, hsingle,
    Members.ofList_of_nodup hnodup, TargetTree.groupingStage, evalPath?, Modifier.act?,
    Document.groupPlus?, Document.group?]

/-- The compiled rules give the rows of the table. -/
theorem get_rules {maxDepth : Nat} (hdepth : 2 ≤ maxDepth) :
    Projection.get maxDepth (.object document) (mapping.rules.compile .standard) =
      .ok (some (.object [(mapping.target,
        .array ((mapping.table elements).rows.map .object))])) := by
  have harrays : 0 + mapping.tree.arrays ≤ 2 ^ 64 := by
    rw [arrays_tree]
    decide
  rw [compile_rules, (Slot.renders mapping.every_tree harrays false []).get_eq,
    Projection.evaluate, depth_tree, if_neg (by omega), mapping.eval?_tree hsource]

omit hsource

/-! ## Rows and elements -/

theorem row_table (elements : List Members) (j : Nat) :
    (mapping.table elements).row j =
      mapping.row fun field => (Members.cells field elements)[j]? := by
  simp only [Members.row, table, row, List.filterMap_map]
  rfl

/-- Row `j` of the table is there if some column has more than `j` cells, and it holds
the cells with index `j`. -/
theorem getElem?_rows_table (elements : List Members) (j : Nat) (row : Members) :
    (mapping.table elements).rows[j]? = some row ↔
      (∃ column ∈ mapping.columns, j < (Members.cells column.1 elements).length) ∧
        row = mapping.row fun field => (Members.cells field elements)[j]? := by
  rw [Members.getElem?_rows_eq_some_iff, row_table, table]
  simp only [List.mem_map, exists_exists_and_eq_and, Document.items?, Option.getD_some]

/-- A field of a row is the value of its column. -/
theorem get?_row (value? : Text → Option Document) {column : Text × Text}
    (hcolumn : column ∈ mapping.columns) :
    (mapping.row value?).get? column.2 = value? column.1 := by
  have hkeys : (mapping.row value?).keys.Sublist (mapping.columns.map (·.2)) := by
    rw [row]
    generalize mapping.columns = columns
    induction columns with
    | nil => exact .slnil
    | cons first columns ih =>
      cases hfirst : value? first.1 with
      | none => simpa [hfirst] using ih.cons first.2
      | some value => simpa [hfirst, Members.keys] using ih
  ext value
  rw [Members.get?_eq_some_iff (hkeys.nodup mapping.names_nodup), row, List.mem_filterMap]
  constructor
  · rintro ⟨other, hother, hentry⟩
    obtain ⟨found, hfound, hpair⟩ := Option.map_eq_some_iff.1 hentry
    obtain ⟨hname, rfl⟩ := Prod.mk.inj hpair
    rwa [List.inj_on_of_nodup_map mapping.names_nodup hother hcolumn hname] at hfound
  · intro hvalue
    exact ⟨column, hcolumn, by simp [hvalue]⟩

/-- Rows are equal only if the values of their fields are. -/
theorem row_inj {left right : Text → Option Document} :
    mapping.row left = mapping.row right ↔
      ∀ column ∈ mapping.columns, left column.1 = right column.1 := by
  constructor
  · intro h column hcolumn
    rw [← mapping.get?_row left hcolumn, h, mapping.get?_row right hcolumn]
  · intro h
    apply List.filterMap_congr
    intro column hcolumn
    rw [h column hcolumn]

/-- The rows of the table are the rows of the elements if and only if no field is
missing before an element that has it. -/
theorem rows_table_eq_iff
    (hfields : ∀ element ∈ elements, ∃ column ∈ mapping.columns,
      (element.get? column.1).isSome = true) :
    (mapping.table elements).rows = elements.map (fun element => mapping.row element.get?) ↔
      ∀ column ∈ mapping.columns, elements.Pairwise fun earlier later =>
        (later.get? column.1).isSome → (earlier.get? column.1).isSome := by
  have hgaps : ∀ field, (∀ j : Nat,
        (Members.cells field elements)[j]? = elements[j]?.bind (Members.get? · field)) ↔
      elements.Pairwise fun earlier later =>
        (later.get? field).isSome → (earlier.get? field).isSome :=
    fun field => getElem?_filterMap_eq_iff
  simp only [← hgaps]
  constructor
  · intro h column hcolumn j
    have hrow := mapping.getElem?_rows_table elements j
    rw [h, List.getElem?_map] at hrow
    cases helement : elements[j]? with
    | none =>
      -- there is no row `j`, so no column has a cell `j`
      by_contra hcell
      have hlt : j < (Members.cells column.1 elements).length := by
        by_contra hle
        exact hcell (List.getElem?_eq_none (by omega))
      have hsome := (hrow _).2 ⟨⟨column, hcolumn, hlt⟩, rfl⟩
      simp [helement] at hsome
    | some element =>
      have heq := ((hrow (mapping.row element.get?)).1 (by simp [helement])).2
      exact (mapping.row_inj.1 heq column hcolumn).symm
  · intro h
    apply List.ext_getElem?
    intro j
    ext row
    rw [getElem?_rows_table, List.getElem?_map, Option.map_eq_some_iff]
    cases helement : elements[j]? with
    | none =>
      constructor
      · rintro ⟨⟨column, hcolumn, hlt⟩, -⟩
        have hcell := h column hcolumn j
        rw [List.getElem?_eq_getElem hlt, helement] at hcell
        simp at hcell
      · simp
    | some element =>
      have hvalues : ∀ column ∈ mapping.columns,
          (Members.cells column.1 elements)[j]? = element.get? column.1 := by
        intro column hcolumn
        rw [h column hcolumn j, helement, Option.bind_some]
      obtain ⟨column, hcolumn, hhas⟩ := hfields element (List.mem_of_getElem? helement)
      have hlt : j < (Members.cells column.1 elements).length := by
        rw [← hvalues column hcolumn] at hhas
        simpa using hhas
      rw [mapping.row_inj.2 hvalues]
      constructor
      · rintro ⟨-, rfl⟩
        exact ⟨element, rfl, rfl⟩
      · rintro ⟨other, hother, rfl⟩
        obtain rfl : element = other := Option.some.inj hother
        exact ⟨⟨column, hcolumn, hlt⟩, rfl⟩

/-! ## What the rows hold -/

/-- The compiled rules give a row for every index below the length of some column, and
row `j` holds the `j`-th cell of every column that has one.  These are the rows of the
elements, one for each, if and only if no element lacks a field that a later one
has. -/
theorem rows_of_compile
    (hsource : document.get? mapping.source = some (.array (elements.map .object)))
    (hfields : ∀ element ∈ elements, ∃ column ∈ mapping.columns,
      (element.get? column.1).isSome = true)
    {maxDepth : Nat} (hdepth : 2 ≤ maxDepth) :
    ∃ rows : List Members,
      Projection.get maxDepth (.object document) (mapping.rules.compile .standard) =
        .ok (some (.object [(mapping.target, .array (rows.map .object))])) ∧
      (∀ j row, rows[j]? = some row ↔
        (∃ column ∈ mapping.columns, j < (Members.cells column.1 elements).length) ∧
          row = mapping.row fun field => (Members.cells field elements)[j]?) ∧
      (rows = elements.map (fun element => mapping.row element.get?) ↔
        ∀ column ∈ mapping.columns, elements.Pairwise fun earlier later =>
          (later.get? column.1).isSome → (earlier.get? column.1).isSome) :=
  ⟨(mapping.table elements).rows, mapping.get_rules hsource hdepth,
    mapping.getElem?_rows_table elements, mapping.rows_table_eq_iff hfields⟩

/-- Two fields of the elements of `p`, which go to the elements of `q`. -/
def pair : RowMapping where
  source := "p".toList
  target := "q".toList
  columns := [("a".toList, "a".toList), ("b".toList, "b".toList)]
  source_isPlain := by decide
  target_isPlain := by decide
  columns_ne_nil := by decide
  columns_isPlain := by decide
  names_nodup := by decide

/-- Two elements, each with a field that the other one lacks. -/
def apartElements : List Members :=
  [[("a".toList, .bool true)], [("b".toList, .bool false)]]

theorem rows_of_compile_apart :
    (∀ element ∈ apartElements, ∃ column ∈ pair.columns,
      (element.get? column.1).isSome = true) ∧
    ∃ rows : List Members,
      Projection.get 64 (.object [("p".toList, .array (apartElements.map .object))])
          (pair.rules.compile .standard) =
        .ok (some (.object [("q".toList, .array (rows.map .object))])) ∧
      (∀ j row, rows[j]? = some row ↔
        (∃ column ∈ pair.columns, j < (Members.cells column.1 apartElements).length) ∧
          row = pair.row fun field => (Members.cells field apartElements)[j]?) ∧
      (rows = apartElements.map (fun element => pair.row element.get?) ↔
        ∀ column ∈ pair.columns, apartElements.Pairwise fun earlier later =>
          (later.get? column.1).isSome → (earlier.get? column.1).isSome) :=
  have hfields : ∀ element ∈ apartElements, ∃ column ∈ pair.columns,
      (element.get? column.1).isSome = true := by decide
  ⟨hfields, rows_of_compile pair rfl hfields (by decide)⟩

/-- The field of the second element moves into the row of the first, and the second
element has no row. -/
theorem rows_of_apart_moved :
    Projection.get 64 (.object [("p".toList, .array (apartElements.map .object))])
        (pair.rules.compile .standard) =
      .ok (some (.object [("q".toList, .array
        [.object [("a".toList, .bool true), ("b".toList, .bool false)]])])) ∧
    Projection.get 64 (.object [("p".toList, .array (apartElements.map .object))])
        (pair.rules.compile .standard) ≠
      .ok (some (.object [("q".toList, .array
        (apartElements.map fun element => .object (pair.row element.get?)))])) := by
  have hsource : Members.get? [("p".toList, .array (apartElements.map .object))] pair.source =
      some (.array (apartElements.map .object)) := rfl
  rw [pair.get_rules hsource (by decide)]
  refine ⟨rfl, ?_⟩
  intro h
  simp only [Except.ok.injEq, Option.some.injEq, Document.object.injEq, List.cons.injEq,
    Prod.mk.injEq, Document.array.injEq, and_true] at h
  have hlength := congrArg List.length h.2
  exact absurd hlength (by decide)

end RowMapping

end Reshape
