import Reshape.Path.Basic
import Reshape.Projection.Evaluation
import Reshape.Proofs.Members

/-!
# Columns and the arrays around them

A path with `#` in it leads to many values at once.  Evaluating it gives a column:
the values, inside the arrays that were passed on the way.  `Document.mapAlong` is
this column, with a function applied to each value.

The main result is `groupAxes_mapAlong`.  Take an object whose members are columns
along one path.  Grouping it once for each `#` of the path gives one column, whose
values are objects with the same members.
-/

namespace Reshape

theorem filterMap_eq_map_of_some {α β : Type} {f : α → Option β} {g : α → β} {xs : List α}
    (h : ∀ x ∈ xs, f x = some (g x)) : xs.filterMap f = xs.map g := by
  rw [List.filterMap_congr h, List.filterMap_eq_map']

namespace Document

/-- The member of an object under a key, and `null` if there is none. -/
def member (key : Text) (d : Document) : Document :=
  (Members.get? d.membersOrNone key).getD .null

/-- Applies `f` to the values that a path leads to, inside the arrays that it
passes. -/
def mapAlong (f : Document → Document) : List Text → Document → Document
  | [], d => f d
  | key :: path, d =>
      if key = Path.each then .array ((d.items?.getD []).map (mapAlong f path))
      else mapAlong f path (d.member key)

/-- The path leads through members and, at each `#`, through arrays, and all values
that it leads to have the property. -/
def Along (P : Document → Prop) : List Text → Document → Prop
  | [], d => P d
  | key :: path, d =>
      if key = Path.each then ∃ items, d = .array items ∧ ∀ item ∈ items, Along P path item
      else ∃ members value,
        d = .object members ∧ Members.get? members key = some value ∧ Along P path value

theorem mapAlong_append (f : Document → Document) (path rest : List Text) (d : Document) :
    mapAlong f (path ++ rest) d = mapAlong (mapAlong f rest) path d := by
  induction path generalizing d with
  | nil => rfl
  | cons key path ih =>
    have hmap : mapAlong f (path ++ rest) = mapAlong (mapAlong f rest) path := funext ih
    simp only [List.cons_append, mapAlong, hmap]

theorem mapAlong_concat (f : Document → Document) (path : List Text) {key : Text}
    (h : key ≠ Path.each) (d : Document) :
    mapAlong f (path ++ [key]) d = mapAlong (fun x => f (x.member key)) path d := by
  have hlast : mapAlong f [key] = fun x => f (x.member key) := by
    funext x
    simp [mapAlong, h]
  rw [mapAlong_append, hlast]

theorem along_append (P : Document → Prop) (path rest : List Text) (d : Document) :
    Along P (path ++ rest) d ↔ Along (Along P rest) path d := by
  induction path generalizing d with
  | nil => rfl
  | cons key path ih => simp only [List.cons_append, Along, ih]

theorem Along.mono {P Q : Document → Prop} {path : List Text} {d : Document} (h : Along P path d)
    (himp : ∀ x, P x → Q x) : Along Q path d := by
  induction path generalizing d with
  | nil => exact himp d h
  | cons key path ih =>
    rw [Along] at h ⊢
    split at h
    · rename_i heach
      obtain ⟨items, rfl, hitems⟩ := h
      rw [if_pos heach]
      exact ⟨items, rfl, fun item hitem => ih (hitems item hitem)⟩
    · rename_i heach
      obtain ⟨members, value, rfl, hvalue, hrest⟩ := h
      rw [if_neg heach]
      exact ⟨members, value, rfl, hvalue, ih hrest⟩

end Document

/-! ## Evaluating a path -/

/-- The step that a key of a target path takes in a document. -/
def Segment.ofKey (key : Text) : Segment :=
  if key = Path.each then .each else .key key

open Document

/-- A path that leads to values gives their column. -/
theorem evalPath?_along {P : Document → Prop} {f : Document → Document} {tail : List Segment}
    (htail : tail ≠ []) (hf : ∀ x, P x → evalPath? tail x = some (f x)) {path : List Text}
    {d : Document} (hpath : Along P path d) :
    evalPath? (path.map Segment.ofKey ++ tail) d = some (mapAlong f path d) := by
  induction path generalizing d with
  | nil => exact hf d hpath
  | cons key path ih =>
    rw [Along] at hpath
    rw [List.map_cons, List.cons_append, mapAlong, Segment.ofKey]
    split at hpath
    · rename_i heach
      obtain ⟨items, rfl, hitems⟩ := hpath
      rw [if_pos heach, if_pos heach]
      have hne : path.map Segment.ofKey ++ tail ≠ [] := by simp [htail]
      obtain ⟨next, rest, hsteps⟩ := List.exists_cons_of_ne_nil hne
      rw [hsteps, evalPath?, ← hsteps]
      have hvalues : items.filterMap (evalPath? (path.map Segment.ofKey ++ tail)) =
          items.map (mapAlong f path) :=
        filterMap_eq_map_of_some fun item hitem => ih (hitems item hitem)
      simp [items?, hvalues]
    · rename_i heach
      obtain ⟨members, value, rfl, hvalue, hrest⟩ := hpath
      rw [if_neg heach, if_neg heach, evalPath?, child?, hvalue, Option.bind_some, ih hrest]
      simp [member, membersOrNone, hvalue]

/-! ## Grouping columns -/

namespace Members

theorem lt_height_iff {columns : Members} {j : Nat} :
    j < columns.height ↔ ∃ entry ∈ columns, j < (entry.2.items?.getD []).length := by
  induction columns with
  | nil => simp [height]
  | cons entry columns ih =>
    rw [height] at ih ⊢
    rw [List.foldr_cons, lt_max_iff, ih]
    simp

theorem getElem?_rows_eq_some_iff {columns row : Members} {j : Nat} :
    columns.rows[j]? = some row ↔
      (∃ entry ∈ columns, j < (entry.2.items?.getD []).length) ∧ row = columns.row j := by
  rw [← lt_height_iff, rows, List.getElem?_map]
  by_cases hj : j < columns.height
  · simp [hj, eq_comm]
  · simp [hj]

variable {cells : List (Text × (Document → Document))} {items : List Document}

theorem height_columns (hne : cells ≠ []) (items : List Document) :
    height (cells.map fun cell => (cell.1, .array (items.map cell.2))) = items.length := by
  induction cells with
  | nil => exact absurd rfl hne
  | cons cell cells ih =>
    cases cells with
    | nil => simp [height, items?]
    | cons next cells =>
      have hrest := ih (by simp)
      rw [height] at hrest ⊢
      rw [List.map_cons, List.foldr_cons, hrest]
      simp [items?]

/-- Columns along one list have a row for each of its items. -/
theorem rows_columns (hne : cells ≠ []) (items : List Document) :
    rows (cells.map fun cell => (cell.1, .array (items.map cell.2))) =
      items.map fun item => cells.map fun cell => (cell.1, cell.2 item) := by
  rw [rows, height_columns hne]
  apply List.ext_getElem
  · simp
  · intro i hleft hright
    have hi : i < items.length := by simpa using hright
    have hcell : ∀ cell : Text × (Document → Document),
        (((Document.array (items.map cell.2)).items?).bind (·[i]?)).map
          (fun value => (cell.1, value)) = some (cell.1, cell.2 items[i]) := by
      intro cell
      simp [items?, hi]
    simp only [List.getElem_map, List.getElem_range, row, List.filterMap_map]
    exact filterMap_eq_map_of_some fun cell _ => hcell cell

end Members

namespace Document

/-- Groups columns along a path with `n` arrays on it. -/
def groupAxes : Nat → Document → Option Document
  | 0, d => some d
  | n + 1, d => groupPlus? n d

/-- Grouping under one more array groups each row. -/
theorem groupAxes_succ_object (n : Nat) (columns : Members) :
    groupAxes (n + 1) (.object columns) =
      some (.array ((Members.rows columns).filterMap fun row => groupAxes n (.object row))) := by
  cases n with
  | zero => simp [groupAxes, groupPlus?, group?]
  | succ n => simp [groupAxes, groupPlus?]

/-- The number of arrays that a path passes. -/
def axes (path : List Text) : Nat :=
  path.count Path.each

/-- An object of columns along one path is grouped into one column of objects. -/
theorem groupAxes_mapAlong {cells : List (Text × (Document → Document))} (hne : cells ≠ [])
    {path : List Text} {d : Document} (hpath : Along (fun _ => True) path d) :
    groupAxes (axes path) (.object (cells.map fun cell => (cell.1, mapAlong cell.2 path d))) =
      some (mapAlong (fun x => .object (cells.map fun cell => (cell.1, cell.2 x))) path d) := by
  induction path generalizing d with
  | nil => rfl
  | cons key path ih =>
    rw [Along] at hpath
    split at hpath
    · -- one axis is left out: the rows are the items of the array
      rename_i heach
      obtain ⟨items, rfl, hitems⟩ := hpath
      subst heach
      have hrows := Members.rows_columns
        (show (cells.map fun cell => (cell.1, mapAlong cell.2 path)) ≠ [] by simpa using hne) items
      rw [List.map_map] at hrows
      simp only [mapAlong, if_true, items?, Option.getD_some]
      rw [axes, List.count_cons_self, groupAxes_succ_object]
      simp only [Function.comp_def] at hrows
      rw [hrows, List.filterMap_map]
      congr 2
      apply filterMap_eq_map_of_some
      intro item hitem
      simpa [Function.comp_def, axes] using ih (hitems item hitem)
    · rename_i heach
      obtain ⟨members, value, rfl, hvalue, hrest⟩ := hpath
      have haxes : axes (key :: path) = axes path := by
        simp [axes, heach]
      have hmember : (Document.object members).member key = value := by
        simp [member, membersOrNone, hvalue]
      simp only [mapAlong, if_neg heach, haxes, hmember]
      exact ih hrest

end Document

end Reshape
