import Reshape.Proofs.Shape

/-!
# One identity rule along a path

A route is a path of plain keys and `#` that starts and ends with a key.  Its identity
rule reads one column and groups it at the `#`s, so as to give back the document with
nothing but the route in it, which is `Document.keepAlong`.

Grouping reaches the key behind a `#` and the key behind that one.  A third key in a row
is left ungrouped.  The level above it then has no column, and grouping it gives no rows.

* `Route.value?` is the value of the part of the expression behind some place of the
  route, and `Route.value?_key` and `Route.value?_each` say how it comes from the part
  behind the next place.
* `Route.value?_eq_keepAlong`: without a long run the parts are restricted columns.
* `Route.value?_lost`: behind a `#`, above a long run, the parts hold no items.
* `Route.get_identityRule_iff` says which of the two is the case for the whole route.
-/

namespace Reshape

/-! ## Documents along a path -/

namespace Document

/-- The document with nothing but a path in it. -/
def keepAlong : List Text → Document → Document
  | [], d => d
  | key :: path, d =>
      if key = Path.each then .array ((d.items?.getD []).map (keepAlong path))
      else .object [(key, keepAlong path (d.member key))]

/-- Objects with one member, one inside the other, around a document. -/
def nest : List Text → Document → Document
  | [], d => d
  | key :: keys, d => .object [(key, nest keys d)]

theorem keepAlong_key {key : Text} (h : key ≠ Path.each) (path : List Text) (d : Document) :
    keepAlong (key :: path) d = .object [(key, keepAlong path (d.member key))] := by
  rw [keepAlong, if_neg h]

theorem keepAlong_each (path : List Text) : keepAlong (Path.each :: path) =
    mapAlong (keepAlong path) [Path.each] := by
  funext d
  simp [keepAlong, mapAlong]

theorem nest_inj {keys : List Text} {left right : Document} :
    nest keys left = nest keys right ↔ left = right := by
  induction keys with
  | nil => rfl
  | cons key keys ih => simp [nest, ih]

/-- Up to its first `#` a path leads through objects to an array. -/
theorem keepAlong_append_each {before : List Text} (hbefore : Path.each ∉ before)
    {path : List Text} {d : Document} (h : d.Along (fun _ => True) (before ++ Path.each :: path)) :
    ∃ items, d.at? before = some (.array items) ∧
      d.keepAlong (before ++ Path.each :: path) =
        nest before (.array (items.map (keepAlong path))) := by
  induction before generalizing d with
  | nil =>
    rw [List.nil_append, Along, if_pos rfl] at h
    obtain ⟨items, rfl, -⟩ := h
    exact ⟨items, rfl, by simp [keepAlong, nest, items?]⟩
  | cons key before ih =>
    rw [List.mem_cons, not_or] at hbefore
    have hkey : key ≠ Path.each := Ne.symm hbefore.1
    rw [List.cons_append, Along, if_neg hkey] at h
    obtain ⟨members, value, rfl, hvalue, hrest⟩ := h
    obtain ⟨items, hitems, hkeep⟩ := ih hbefore.2 hrest
    refine ⟨items, ?_, ?_⟩
    · simp [at?, membersOrNone, hvalue, hitems]
    · simp [keepAlong_key hkey, member, membersOrNone, hvalue, hkeep, nest]

/-- Behind a `#` the values of a path are the items of an array. -/
theorem exists_mapAlong_eq_array (f : Document → Document) {path : List Text}
    (h : Path.each ∈ path) (d : Document) : ∃ items, mapAlong f path d = .array items := by
  induction path generalizing d with
  | nil => simp at h
  | cons key path ih =>
    rw [mapAlong]
    split
    · exact ⟨_, rfl⟩
    · rename_i hkey
      exact ih (by simpa [Ne.symm hkey] using h) _

theorem groupAxes_array (n : Nat) (items : List Document) :
    groupAxes n (.array items) = some (.array items) := by
  cases n with
  | zero => rfl
  | succ n => cases n <;> rfl

theorem along_of_append {path rest : List Text} {d : Document}
    (h : d.Along (fun _ => True) (path ++ rest)) : d.Along (fun _ => True) path := by
  rw [along_append] at h
  exact h.mono fun _ _ => trivial

end Document

namespace Expression

theorem pass?_append (first second : Expression) (d : Document) :
    pass? (first ++ second) d = (pass? first d).bind (pass? second) := by
  induction first generalizing d with
  | nil => simp [pass?]
  | cons stage first ih =>
    rw [List.cons_append, pass?, pass?, Option.bind_assoc]
    exact congrArg _ (funext ih)

theorem eval?_append {first : Expression} (h : first ≠ []) (second : Expression) (d : Document) :
    eval? (first ++ second) d = (eval? first d).bind (pass? second) := by
  obtain ⟨stage, first, rfl⟩ := List.exists_cons_of_ne_nil h
  rw [List.cons_append, eval?, eval?, Option.bind_assoc]
  exact congrArg _ (funext (pass?_append first second))

end Expression

/-! ## The tree of one rule -/

/-- The slot of one source at the end of a path. -/
def Slot.chain (source : Text) : List Text → Slot
  | [] => .leaf source
  | key :: path => .branch [(key, chain source path)]

namespace Slot

theorem branch_insert_nil (source : Text) {path : List Text} (h : path ≠ []) :
    branch (TargetTree.insert source path []) = chain source path := by
  induction path with
  | nil => exact absurd rfl h
  | cons key path ih =>
    cases path with
    | nil => rfl
    | cons next path =>
      rw [chain, ← ih (by simp)]
      rfl

theorem isPlain_singleton {key : Text} (h : key.isPlain = true) (slot : Slot) :
    TargetTree.IsPlain [(key, slot)] :=
  ⟨by simp, by simp [TargetTree.keys], by simpa [TargetTree.keys] using h⟩

theorem every_chain {source : Text} (hsource : Path.IsReadable source) {path : List Text}
    (h : Shape.isPath path = true) :
    (chain source path).Every TargetTree.IsRegular Path.IsReadable := by
  induction path with
  | nil => exact hsource
  | cons key path ih =>
    simp only [Shape.isPath, List.all_cons, Bool.and_eq_true, Bool.or_eq_true,
      decide_eq_true_eq] at h ih
    refine ⟨?_, ih h.2, trivial⟩
    rcases h.1 with hplain | rfl
    · exact .inl (isPlain_singleton hplain _)
    · exact .inr ⟨_, rfl⟩

theorem stages_chain_ne_nil (source : Text) (path : List Text) (inArray : Bool) (depth : Nat)
    (key : Text) : (chain source path).stages inArray depth key ≠ [] := by
  induction path generalizing inArray depth key with
  | nil => simp [chain, stages]
  | cons next path ih =>
    rw [chain]
    by_cases hnext : next = Path.each
    · rw [hnext, stages_each]
      exact List.append_ne_nil_of_left_ne_nil (ih _ _ _) _
    · rw [stages]
      split <;> simp [TargetTree.isArray, hnext]

theorem arrays_chain_le (source : Text) (path : List Text) :
    (chain source path).arrays ≤ Document.axes path := by
  induction path with
  | nil => simp [chain, arrays]
  | cons key path ih =>
    rw [chain, arrays, TargetTree.arrays, TargetTree.arrays, Document.axes, List.count_cons]
    rw [Document.axes] at ih
    by_cases hkey : key = Path.each
    · simp only [hkey, beq_self_eq_true, if_true]
      split <;> omega
    · simpa [hkey, beq_false_of_ne hkey] using ih

end Slot

/-! ## Routes -/

/-- A path of plain keys and `#` that starts and ends with a key. -/
structure Route where
  path : List Text
  isPath : Shape.isPath path = true
  starts : path.head?.any Text.isPlain = true
  ends : path.getLast?.any Text.isPlain = true

namespace Route

/-- Whether three keys in a row stand behind a `#`. -/
def HasLongRun (path : List Text) : Prop :=
  ∃ i < path.length, Path.each ∈ path.take i ∧
    3 ≤ ((path.drop i).takeWhile (· ≠ Path.each)).length

instance (path : List Text) : Decidable (HasLongRun path) :=
  inferInstanceAs (Decidable (∃ i < path.length, _))

theorem hasLongRun_append {before : List Text} (hbefore : Path.each ∈ before)
    {first second third : Text} (hfirst : first ≠ Path.each) (hsecond : second ≠ Path.each)
    (hthird : third ≠ Path.each) (behind : List Text) :
    HasLongRun (before ++ first :: second :: third :: behind) :=
  ⟨before.length, by simp, by simpa using hbefore, by simp [hfirst, hsecond, hthird]⟩

theorem exists_cons_of_lt_takeWhile {α : Type} {p : α → Bool} {xs : List α} {n : Nat}
    (h : n + 1 ≤ (xs.takeWhile p).length) :
    ∃ x rest, xs = x :: rest ∧ p x = true ∧ n ≤ (rest.takeWhile p).length := by
  cases xs with
  | nil => simp at h
  | cons x rest =>
    by_cases hx : p x = true
    · exact ⟨x, rest, rfl, hx, by simpa [hx] using h⟩
    · simp [hx] at h

/-- A long run stands somewhere behind the first `#`. -/
theorem exists_of_hasLongRun {path : List Text} (h : HasLongRun path) :
    ∃ keys way first second third behind,
      path = keys ++ Path.each :: (way ++ first :: second :: third :: behind) ∧
      Path.each ∉ keys ∧ first ≠ Path.each ∧ second ≠ Path.each ∧ third ≠ Path.each := by
  obtain ⟨i, -, hbefore, hrun⟩ := h
  obtain ⟨keys, way, htake, hkeys⟩ := List.eq_append_cons_of_mem hbefore
  obtain ⟨first, rest, hdrop, hfirst, hrun⟩ := exists_cons_of_lt_takeWhile hrun
  obtain ⟨second, rest, rfl, hsecond, hrun⟩ := exists_cons_of_lt_takeWhile hrun
  obtain ⟨third, behind, rfl, hthird, -⟩ := exists_cons_of_lt_takeWhile hrun
  refine ⟨keys, way, first, second, third, behind, ?_, hkeys, of_decide_eq_true hfirst,
    of_decide_eq_true hsecond, of_decide_eq_true hthird⟩
  have hpath := List.take_append_drop i path
  rw [htake, hdrop] at hpath
  simpa using hpath.symm

theorem takeWhile_append_each {keys : List Text} (h : Path.each ∉ keys) (rest : List Text) :
    (keys ++ Path.each :: rest).takeWhile (· ≠ Path.each) = keys := by
  have hkeys : ∀ key ∈ keys, decide (key ≠ Path.each) = true :=
    fun key hkey => decide_eq_true fun heq => h (heq ▸ hkey)
  rw [List.takeWhile_append_of_pos hkeys, List.takeWhile_cons_of_neg (by simp), List.append_nil]

/-- Grouping, if there is anything to group. -/
def groupIf (grouped : Prop) [Decidable grouped] (path : List Text) (d : Document) :
    Option Document :=
  if grouped then Document.groupAxes (Document.axes path) d else some d

/-- The value of the part of the expression that stands behind a key, where `before` is
the way to that key and `rest` is what is left of the path. -/
def value? (source : Text) (d : Document) (before : List Text) (key : Text) (rest : List Text) :
    Option Document :=
  Expression.eval? ((Slot.chain source rest).stages (before.getLast? = some Path.each)
    (Document.axes (before ++ [key])) key) d

section

variable (source : Text) (d : Document) (before : List Text) (key : Text)

theorem value?_nil :
    value? source d before key [] = evalPath? ((Path.steps? source).getD []) d := by
  simp [value?, Slot.chain, Slot.stages, Expression.eval?, Expression.pass?, Stage.eval?]

theorem pass?_groupIf {grouped : Prop} [Decidable grouped] {path : List Text}
    (h : grouped → Path.each ∈ path) :
    Expression.pass? (if grouped then [TargetTree.groupingStage (Document.axes path)] else []) =
      groupIf grouped path := by
  funext x
  by_cases hgrouped : grouped
  · have haxes : 1 ≤ Document.axes path := List.one_le_count_iff.2 (h hgrouped)
    rw [if_pos hgrouped, Shape.pass?_grouping haxes, groupIf, if_pos hgrouped]
  · rw [if_neg hgrouped, groupIf, if_neg hgrouped]
    rfl

/-- Behind a key that another key follows there is an object literal.  It is grouped if
it stands in an element of an array, and if it is the element. -/
theorem value?_key {next : Text} (hnext : next.isPlain = true) (rest : List Text) :
    value? source d before key (next :: rest) =
      (groupIf (before.getLast? = some Path.each) (before ++ [key])
        (.object ((value? source d (before ++ [key]) next rest).map (next, ·)).toList)).bind
      (groupIf (key = Path.each) (before ++ [key])) := by
  have heach := Path.ne_each_of_isPlain hnext
  have hinner : Document.axes (before ++ [key] ++ [next]) = Document.axes (before ++ [key]) :=
    Shape.axes_concat heach
  have hmembers : ∀ expression, Members.ofList (Stage.evalMembers [(next, expression)] d) =
      ((Expression.eval? expression d).map (next, ·)).toList := by
    intro expression
    rw [Stage.evalMembers, Stage.evalMembers]
    cases Expression.eval? expression d <;> rfl
  have hlevel : before.getLast? = some Path.each → Path.each ∈ before ++ [key] :=
    fun hlast => List.mem_append_left _ (List.mem_of_getLast? hlast)
  rw [value?, Slot.chain, Slot.stages_of_isPlain (Slot.isPlain_singleton hnext _),
    Expression.eval?_append (by simp), List.map_singleton, Expression.eval?, Stage.eval?,
    Option.bind_some, hmembers]
  simp only [decide_eq_true_eq]
  rw [pass?_groupIf hlevel, pass?_groupIf (by rintro rfl; simp), value?, hinner,
    List.getLast?_concat]
  simp only [Option.some.injEq]

/-- Behind a key that `#` follows there are the elements. -/
theorem value?_each {rest : List Text} (hrest : rest ≠ []) :
    value? source d before key (Path.each :: rest) =
      (value? source d (before ++ [key]) Path.each rest).bind
        (groupIf (key = Path.each) (before ++ [key])) := by
  have hopened : (Slot.chain source rest).opened = 1 := by
    obtain ⟨next, rest, rfl⟩ := List.exists_cons_of_ne_nil hrest
    rfl
  rw [value?, Slot.chain, Slot.stages_each,
    Expression.eval?_append (Slot.stages_chain_ne_nil source rest _ _ _),
    pass?_groupIf (by rintro rfl; simp), hopened, ← Shape.axes_concat_each, value?,
    List.getLast?_concat]
  simp only [Option.some.injEq]

end

/-! ## Restricted columns -/

section

variable {source : Text} {d : Document} {before rest : List Text} {key : Text}

theorem isPath_cons : Shape.isPath (key :: rest) = true ↔
    (key.isPlain = true ∨ key = Path.each) ∧ Shape.isPath rest = true := by
  simp [Shape.isPath]

theorem groupIf_array (grouped : Prop) [Decidable grouped] (path : List Text)
    (items : List Document) : groupIf grouped path (.array items) = some (.array items) := by
  rw [groupIf]
  split
  · exact Document.groupAxes_array _ items
  · rfl

/-- Grouping leaves a column behind a `#` as it is. -/
theorem groupIf_mapAlong {grouped : Prop} [Decidable grouped] (f : Document → Document)
    {path : List Text} (h : grouped → Path.each ∈ path) :
    groupIf grouped path (Document.mapAlong f path d) = some (Document.mapAlong f path d) := by
  by_cases hgrouped : grouped
  · obtain ⟨items, hitems⟩ := Document.exists_mapAlong_eq_array f (h hgrouped) d
    rw [hitems, groupIf_array]
  · rw [groupIf, if_neg hgrouped]

/-- One of the groupings turns an object that holds a column into a column of objects,
and the other one changes nothing. -/
theorem groupIf_object {next : Text} {f : Document → Document} {path : List Text}
    (hpath : d.Along (fun _ => True) path) {first second : Prop} [Decidable first]
    [Decidable second] (h : first ∨ second ↔ Path.each ∈ path) :
    (groupIf first path (.object [(next, Document.mapAlong f path d)])).bind
        (groupIf second path) =
      some (Document.mapAlong (fun x => .object [(next, f x)]) path d) := by
  have hgroup : Document.groupAxes (Document.axes path)
      (.object [(next, Document.mapAlong f path d)]) =
        some (Document.mapAlong (fun x => .object [(next, f x)]) path d) :=
    Document.groupAxes_mapAlong (List.cons_ne_nil (next, f) []) hpath
  by_cases hfirst : first
  · rw [groupIf, if_pos hfirst, hgroup, Option.bind_some,
      groupIf_mapAlong _ fun hsecond => h.1 (.inr hsecond)]
  · rw [groupIf, if_neg hfirst, Option.bind_some, groupIf]
    by_cases hsecond : second
    · rw [if_pos hsecond, hgroup]
    · have hzero : Document.axes path = 0 :=
        List.count_eq_zero.2 fun hmem => (h.2 hmem).elim hfirst hsecond
      rw [if_neg hsecond, ← hgroup, hzero]
      rfl

/-- Without a long run, a key that another key follows stands outside of all arrays, or
directly in an element, or it is the element. -/
theorem grouped_iff {next : Text} (hnext : next ≠ Path.each)
    (hrun : ¬ HasLongRun (before ++ key :: next :: rest)) :
    before.getLast? = some Path.each ∨ key = Path.each ↔ Path.each ∈ before ++ [key] := by
  constructor
  · rintro (hlast | rfl)
    · exact List.mem_append_left _ (List.mem_of_getLast? hlast)
    · simp
  · intro hmem
    by_contra hnot
    rw [not_or] at hnot
    have hbefore : Path.each ∈ before := by
      simpa [Ne.symm hnot.2] using hmem
    rcases List.eq_nil_or_concat before with rfl | ⟨init, last, rfl⟩
    · simp at hbefore
    · have hlast : last ≠ Path.each := by simpa using hnot.1
      have hinit : Path.each ∈ init := by simpa [Ne.symm hlast] using hbefore
      rw [List.concat_eq_append, List.append_assoc] at hrun
      exact hrun (hasLongRun_append hinit hlast hnot.2 hnext rest)

/-- Without a long run, the part of the expression behind a key gives the column of that
key, restricted. -/
theorem value?_eq_keepAlong
    (hsource : Path.steps? source = some ((before ++ key :: rest).map Segment.ofKey))
    (hpath : Shape.isPath (key :: rest) = true)
    (hlast : (key :: rest).getLast?.any Text.isPlain = true)
    (hd : d.Along (fun _ => True) (before ++ key :: rest))
    (hrun : ¬ HasLongRun (before ++ key :: rest)) :
    value? source d before key rest =
      some (Document.mapAlong (Document.keepAlong rest) (before ++ [key]) d) := by
  induction rest generalizing before key with
  | nil =>
    have hkey : key ≠ Path.each := Path.ne_each_of_isPlain (by simpa using hlast)
    rw [Document.along_append] at hd
    rw [value?_nil, hsource, Option.getD_some, List.map_append, Document.mapAlong_concat _ _ hkey]
    refine evalPath?_along (by simp) ?_ hd
    intro x hx
    rw [Document.Along, if_neg hkey] at hx
    obtain ⟨members, value, rfl, hvalue, -⟩ := hx
    simp [Segment.ofKey, hkey, evalPath?, Document.child?, Document.keepAlong, Document.member,
      Document.membersOrNone, hvalue]
  | cons next rest ih =>
    rw [List.append_cons] at hsource hd
    have hcolumn : d.Along (fun _ => True) (before ++ [key]) := Document.along_of_append hd
    have hinner := ih hsource (isPath_cons.1 hpath).2 (by simpa using hlast) hd
      (by rwa [← List.append_cons])
    rcases (isPath_cons.1 (isPath_cons.1 hpath).2).1 with hplain | rfl
    · have hnext := Path.ne_each_of_isPlain hplain
      rw [value?_key _ _ _ _ hplain, hinner, Document.mapAlong_concat _ _ hnext]
      have hkeep : Document.keepAlong (next :: rest) =
          fun x => .object [(next, Document.keepAlong rest (x.member next))] :=
        funext (Document.keepAlong_key hnext rest)
      rw [hkeep, Option.map_some, Option.toList_some]
      exact groupIf_object hcolumn (grouped_iff hnext hrun)
    · have hrest : rest ≠ [] := by
        rintro rfl
        exact Path.ne_each_of_isPlain (by simpa using hlast) rfl
      rw [value?_each _ _ _ _ hrest, hinner, Option.bind_some, Document.mapAlong_append,
        ← Document.keepAlong_each, groupIf_mapAlong]
      rintro rfl
      simp

/-! ## Lost columns -/

/-- A value behind a key in which there are no items: no rows, or an object that should
have been grouped. -/
def IsLost (key : Text) (value : Document) : Prop :=
  value = .array [] ∨ key ≠ Path.each ∧ ∃ members, value = .object members

/-- Grouping an object without columns gives no rows. -/
theorem groupAxes_lost {next : Text} {value : Document} (h : IsLost next value) {n : Nat}
    (hn : 1 ≤ n) : Document.groupAxes n (.object [(next, value)]) = some (.array []) := by
  obtain ⟨n, rfl⟩ : ∃ m, n = m + 1 := ⟨n - 1, by omega⟩
  have hrows : Members.rows [(next, value)] = [] := by
    rcases h with rfl | ⟨-, members, rfl⟩ <;> simp [Members.rows, Members.height, Document.items?]
  rw [Document.groupAxes_succ_object, hrows, List.filterMap_nil]

/-- If the part behind the next key is lost, so is the part behind this one. -/
theorem value?_lost_of_next {next : Text} (heach : Path.each ∈ before ++ [key])
    (hpath : next.isPlain = true ∨ next = Path.each ∧ rest ≠ [])
    (h : ∃ value, value? source d (before ++ [key]) next rest = some value ∧ IsLost next value) :
    ∃ value, value? source d before key (next :: rest) = some value ∧ IsLost key value := by
  obtain ⟨value, hvalue, hlost⟩ := h
  have haxes : 1 ≤ Document.axes (before ++ [key]) := List.one_le_count_iff.2 heach
  rcases hpath with hplain | ⟨rfl, hrest⟩
  · rw [value?_key _ _ _ _ hplain, hvalue, Option.map_some, Option.toList_some]
    have hgroup := groupAxes_lost hlost haxes
    by_cases hlevel : before.getLast? = some Path.each
    · refine ⟨.array [], ?_, .inl rfl⟩
      rw [groupIf, if_pos hlevel, hgroup, Option.bind_some, groupIf_array]
    · rw [groupIf, if_neg hlevel, Option.bind_some, groupIf]
      by_cases hkey : key = Path.each
      · exact ⟨.array [], by rw [if_pos hkey, hgroup], .inl rfl⟩
      · exact ⟨_, by rw [if_neg hkey], .inr ⟨hkey, _, rfl⟩⟩
  · have hempty : value = .array [] := by
      rcases hlost with rfl | ⟨hne, -⟩
      · rfl
      · exact absurd rfl hne
    refine ⟨.array [], ?_, .inl rfl⟩
    rw [value?_each _ _ _ _ hrest, hvalue, hempty, Option.bind_some, groupIf_array]

/-- The third key of a run behind a `#` is not grouped. -/
theorem value?_third {first second third : Text} (hfirst : first ≠ Path.each)
    (hsecond : second ≠ Path.each) (hthird : third.isPlain = true) :
    ∃ value, value? source d (before ++ [first]) second (third :: rest) = some value ∧
      IsLost second value := by
  rw [value?_key _ _ _ _ hthird]
  simp [groupIf, hfirst, hsecond, IsLost]

/-- Behind a `#`, above a long run, the parts are lost. -/
theorem value?_lost {first second third : Text} {way : List Text}
    (heach : Path.each ∈ before ++ [key])
    (hpath : Shape.isPath (way ++ first :: second :: third :: rest) = true)
    (hfirst : first ≠ Path.each) (hsecond : second ≠ Path.each) (hthird : third ≠ Path.each) :
    ∃ value, value? source d before key (way ++ first :: second :: third :: rest) = some value ∧
      IsLost key value := by
  have hstep : ∀ next, Path.each ∈ before ++ [key] ++ [next] :=
    fun next => List.mem_append_left _ heach
  induction way generalizing before key with
  | nil =>
    simp only [List.nil_append, isPath_cons, hfirst, hsecond, hthird, or_false] at hpath
    obtain ⟨hfirstPlain, hsecondPlain, hthirdPlain, -⟩ := hpath
    exact value?_lost_of_next heach (.inl hfirstPlain)
      (value?_lost_of_next (hstep first) (.inl hsecondPlain)
        (value?_third hfirst hsecond hthirdPlain))
  | cons next way ih =>
    rw [List.cons_append, isPath_cons] at hpath
    exact value?_lost_of_next heach (hpath.1.imp_right fun heq => ⟨heq, by simp⟩)
      (ih (hstep next) hpath.2 fun _ => List.mem_append_left _ (hstep next))

/-- Up to its first `#` the expression gives nested objects around what it gives for the
array. -/
theorem value?_nest {keys : List Text} (hbefore : Path.each ∉ before ++ [key])
    (hpath : Shape.isPath keys = true) (hkeys : Path.each ∉ keys) (hrest : rest ≠ [])
    {value : Document}
    (h : value? source d (before ++ key :: keys) Path.each rest = some value) :
    value? source d before key (keys ++ Path.each :: rest) = some (.nest keys value) := by
  have hkey : key ≠ Path.each := fun heq => hbefore (by simp [heq])
  induction keys generalizing before key with
  | nil =>
    rw [List.nil_append, value?_each _ _ _ _ hrest, h, Option.bind_some, groupIf, if_neg hkey]
    rfl
  | cons next keys ih =>
    rw [List.mem_cons, not_or] at hkeys
    have hnext : next ≠ Path.each := Ne.symm hkeys.1
    have hplain : next.isPlain = true := (isPath_cons.1 hpath).1.resolve_right hnext
    have hlevel : before.getLast? ≠ some Path.each :=
      fun hlast => hbefore (List.mem_append_left _ (List.mem_of_getLast? hlast))
    have hway : Path.each ∉ before ++ [key] ++ [next] := by
      rw [List.mem_append, not_or]
      exact ⟨hbefore, by simpa using hkeys.1⟩
    have hinner := ih hway (isPath_cons.1 hpath).2 hkeys.2 (by rwa [← List.append_cons]) hnext
    rw [List.cons_append, value?_key _ _ _ _ hplain, hinner, groupIf, if_neg hlevel,
      Option.bind_some, groupIf, if_neg hkey]
    rfl

/-! ## The whole route -/

/-- The value of the whole expression. -/
theorem eval?_chain (hkey : key.isPlain = true) (rest : List Text) :
    Expression.eval? ((Slot.chain source (key :: rest)).stages false 0 []) d =
      some (.object ((value? source d [] key rest).map (key, ·)).toList) := by
  have hroot : value? source d [] [] (key :: rest) =
      Expression.eval? ((Slot.chain source (key :: rest)).stages false 0 []) d := rfl
  have haxes : Document.axes ([[]] ++ [key]) = Document.axes ([] ++ [key]) := by
    simp [Document.axes, Path.each]
  have hfirst : value? source d [[]] key rest = value? source d [] key rest := by
    rw [value?, value?, haxes]
    rfl
  rw [← hroot, value?_key _ _ _ _ hkey, List.nil_append, hfirst]
  rfl

end

section

variable (route : Route) {d : Document}

/-- The identity rule of a route. -/
def rules : RuleSet :=
  [Shape.identityRule route.path []]

/-- The source of the rule, as it is written in the expression. -/
def sourceText : Text :=
  (Shape.identityRule route.path []).coercedSource .standard

theorem exists_path_eq : ∃ key rest, route.path = key :: rest ∧ key.isPlain = true := by
  have hstarts := route.starts
  cases hpath : route.path with
  | nil => simp [hpath] at hstarts
  | cons key rest => exact ⟨key, rest, rfl, by simpa [hpath] using hstarts⟩

theorem path_ne_nil : route.path ≠ [] := by
  obtain ⟨key, rest, hpath, -⟩ := route.exists_path_eq
  simp [hpath]

theorem steps?_sourceText : Path.steps? route.sourceText = some (route.path.map Segment.ofKey) := by
  have htype : Modifier.ofType? [] = none := by decide
  rw [sourceText, Shape.steps?_source route.path_ne_nil route.isPath, htype]
  simp

theorem compile_rules : route.rules.compile .standard =
    (Slot.chain route.sourceText route.path).valueText false 0 [] := by
  obtain ⟨key, rest, hpath, hkey⟩ := route.exists_path_eq
  have hsegments := Shape.segments_of_isPath route.path_ne_nil route.isPath
  have hfields : Slot.branch (route.rules.fields .standard) =
      Slot.chain route.sourceText route.path := by
    have hinsert : route.rules.fields .standard = TargetTree.insert route.sourceText
        (Path.segments (Path.ofSegments route.path)) [] := rfl
    rw [hinsert, hsegments, Slot.branch_insert_nil _ route.path_ne_nil]
  rw [← hfields]
  apply RuleSet.compile_eq
  · simp [rules]
  all_goals
    intro rule hrule
    obtain rfl : rule = Shape.identityRule route.path [] := by simpa [rules] using hrule
  · apply Rule.targetKeys_of_segments (hsegments.trans hpath) hkey
    exact hsegments.symm ▸ Shape.notMem_of_isPath route.isPath (by decide) (by decide)
  · exact Shape.ofSegments_ne_nil route.path_ne_nil route.isPath

theorem every_tree :
    (Slot.chain route.sourceText route.path).Every TargetTree.IsRegular Path.IsReadable := by
  apply Slot.every_chain _ route.isPath
  rw [Path.IsReadable, route.steps?_sourceText]
  rfl

/-- Within the allowed nesting the compiled rule gives the value of its expression. -/
theorem get_rules {maxDepth : Nat} (hsize : Document.axes route.path ≤ 2 ^ 64)
    (hdepth : (route.rules.compile .standard).nesting ≤ maxDepth) (d : Document) :
    Projection.get maxDepth d (route.rules.compile .standard) =
      .ok (Expression.eval? ((Slot.chain route.sourceText route.path).stages false 0 []) d) := by
  have harrays := Slot.arrays_chain_le route.sourceText route.path
  have hnests := Slot.nests route.every_tree false 0 [] []
  rw [List.append_nil, ← compile_rules, Text.nesting, Nat.max_zero] at hnests
  have hrenders := Slot.renders route.every_tree (by omega : 0 + _ ≤ 2 ^ 64) false []
  rw [← compile_rules] at hrenders
  rw [hrenders.get_eq, Projection.evaluate, if_neg (by omega)]

variable {maxDepth : Nat} (hsize : Document.axes route.path ≤ 2 ^ 64)
  (hdepth : (route.rules.compile .standard).nesting ≤ maxDepth)

include hsize hdepth

theorem get_of_not_hasLongRun (hd : d.Along (fun _ => True) route.path)
    (hrun : ¬ HasLongRun route.path) :
    Projection.get maxDepth d (route.rules.compile .standard) =
      .ok (some (d.keepAlong route.path)) := by
  obtain ⟨key, rest, hpath, hkey⟩ := route.exists_path_eq
  have hsource := route.steps?_sourceText
  have hisPath := route.isPath
  have hends := route.ends
  rw [route.get_rules hsize hdepth, hpath, eval?_chain hkey]
  rw [hpath] at hd hrun hsource hisPath hends
  have heach := Path.ne_each_of_isPlain hkey
  have hvalue : value? route.sourceText d [] key rest =
      some (Document.mapAlong (Document.keepAlong rest) ([] ++ [key]) d) :=
    value?_eq_keepAlong hsource hisPath hends hd hrun
  rw [hvalue, Document.keepAlong_key heach]
  simp [Document.mapAlong, heach]

/-- A long run loses all items of the first array. -/
theorem get_of_hasLongRun (hrun : HasLongRun route.path) (d : Document) :
    Projection.get maxDepth d (route.rules.compile .standard) =
      .ok (some (.nest (route.path.takeWhile (· ≠ Path.each)) (.array []))) := by
  obtain ⟨keys, way, first, second, third, behind, hpath, hkeys, hfirst, hsecond, hthird⟩ :=
    exists_of_hasLongRun hrun
  have hstarts := route.starts
  have hisPath := route.isPath
  rw [hpath] at hstarts hisPath
  obtain ⟨hkeysPath, hrest⟩ := Shape.isPath_append.1 hisPath
  rw [route.get_rules hsize hdepth, hpath, takeWhile_append_each hkeys]
  cases keys with
  | nil => exact absurd (by simpa using hstarts) (by decide : ¬ Text.isPlain Path.each = true)
  | cons key keys =>
    have hkey : key.isPlain = true := by simpa using hstarts
    obtain ⟨value, hvalue, hlost⟩ : ∃ value, value? route.sourceText d (key :: keys) Path.each
        (way ++ first :: second :: third :: behind) = some value ∧ IsLost Path.each value :=
      value?_lost (by simp) (isPath_cons.1 hrest).2 hfirst hsecond hthird
    obtain rfl : value = .array [] := by
      rcases hlost with heq | ⟨hne, -⟩
      · exact heq
      · exact absurd rfl hne
    have hnest : value? route.sourceText d [] key
        (keys ++ Path.each :: (way ++ first :: second :: third :: behind)) =
        some (.nest keys (.array [])) := by
      apply value?_nest _ (isPath_cons.1 hkeysPath).2 _ (by simp) hvalue
      · simpa using Ne.symm (Path.ne_each_of_isPlain hkey)
      · exact fun hmem => hkeys (List.mem_cons_of_mem _ hmem)
    rw [List.cons_append, eval?_chain hkey, hnest]
    rfl

omit hsize hdepth

/-- The identity rule of a route gives back the document, restricted to the route, if and
only if no three keys in a row stand behind a `#`, or there is nothing to lose because
the first array is empty.  With three such keys in a row it gives the first array
without its items. -/
theorem get_identityRule_iff (hsize : Document.axes route.path ≤ 2 ^ 64)
    (hdepth : (route.rules.compile .standard).nesting ≤ maxDepth)
    (hd : d.Along (fun _ => True) route.path) :
    (Projection.get maxDepth d (route.rules.compile .standard) =
        .ok (some (d.keepAlong route.path)) ↔
      ¬ HasLongRun route.path ∨
        d.at? (route.path.takeWhile (· ≠ Path.each)) = some (.array [])) ∧
    (HasLongRun route.path →
      Projection.get maxDepth d (route.rules.compile .standard) =
        .ok (some (.nest (route.path.takeWhile (· ≠ Path.each)) (.array [])))) := by
  refine ⟨?_, fun hrun => route.get_of_hasLongRun hsize hdepth hrun d⟩
  by_cases hrun : HasLongRun route.path
  · rw [route.get_of_hasLongRun hsize hdepth hrun]
    obtain ⟨keys, way, first, second, third, behind, hpath, hkeys, -⟩ := exists_of_hasLongRun hrun
    have htake := takeWhile_append_each hkeys (way ++ first :: second :: third :: behind)
    rw [← hpath] at htake
    rw [hpath] at hd
    obtain ⟨items, hitems, hkeep⟩ := Document.keepAlong_append_each hkeys hd
    rw [← hpath] at hkeep
    rw [htake, hkeep, hitems]
    simp [hrun, Document.nest_inj]
  · simp [hrun, route.get_of_not_hasLongRun hsize hdepth hd hrun]

end

/-- Two `#` in a row, and two runs of keys behind them. -/
def grid : Route where
  path := ["a".toList, Path.each, Path.each, "b".toList, "c".toList, Path.each, "d".toList]
  isPath := by decide
  starts := by decide
  ends := by decide

/-- A grid with an empty row and an empty array of cells, and with a member that is not
on the route. -/
def gridDocument : Document :=
  .object
    [("z".toList, .null),
     ("a".toList, .array
       [.array [],
        .array
          [.object [("b".toList, .object [("c".toList, .array [])])],
           .object [("b".toList, .object [("c".toList, .array
             [.object [("d".toList, .array [.null])]])])]]])]

theorem get_identityRule_grid :
    Document.axes grid.path ≤ 2 ^ 64 ∧ (grid.rules.compile .standard).nesting ≤ 4 ∧
    gridDocument.Along (fun _ => True) grid.path ∧
    Projection.get 4 gridDocument (grid.rules.compile .standard) =
      .ok (some (gridDocument.keepAlong grid.path)) :=
  have hsize : Document.axes grid.path ≤ 2 ^ 64 := by decide
  have hdepth : (grid.rules.compile .standard).nesting ≤ 4 := by decide +kernel
  have halong : gridDocument.Along (fun _ => True) grid.path := by
    simp [grid, gridDocument, Document.Along, Path.each, Members.get?, List.lookup]
  ⟨hsize, hdepth, halong, (grid.get_identityRule_iff hsize hdepth halong).1.2 (.inl (by decide))⟩

/-- Three keys behind a `#`. -/
def deep : Route where
  path := ["a".toList, Path.each, "b".toList, "c".toList, "d".toList]
  isPath := by decide
  starts := by decide
  ends := by decide

/-- One item along the route. -/
def deepDocument : Document :=
  .object [("a".toList, .array [.object [("b".toList, .object [("c".toList, .object
    [("d".toList, .bool true)])])]])]

/-- The item is lost. -/
theorem get_identityRule_deep :
    deepDocument.Along (fun _ => True) deep.path ∧
    deepDocument.keepAlong deep.path = deepDocument ∧
    Projection.get 64 deepDocument (deep.rules.compile .standard) =
      .ok (some (.object [("a".toList, .array [])])) ∧
    Projection.get 64 deepDocument (deep.rules.compile .standard) ≠
      .ok (some (deepDocument.keepAlong deep.path)) := by
  have hdepth : (deep.rules.compile .standard).nesting ≤ 64 := by decide +kernel
  have hget := deep.get_of_hasLongRun (by decide) hdepth (by decide) deepDocument
  have hkeep : deepDocument.keepAlong deep.path = deepDocument := rfl
  refine ⟨?_, hkeep, hget, ?_⟩
  · simp [deep, deepDocument, Document.Along, Path.each, Members.get?]
  · rw [hget, hkeep]
    simp [deepDocument, deep, Document.nest, Path.each]

end Route

end Reshape
