import Reshape.Rule.Compile
import Reshape.Proofs.Grammar
import Reshape.Proofs.Transposition

/-!
# Coercions at the end of a path

A coercion can be written at the end of a path, `p.@tonum`, or as a stage of its own,
`p|@tonum`.  Under a `#` the first coerces every item before the items are collected, and
the second the array that was collected.  Both come to the same, because a coercion acts on
the items of an array one by one and never loses one.

* `evalPath?_concat`: a modifier that acts item by item may be taken off the end of a path.
  A path that ends in `#` is left out, since a `#` at the end counts the items.
* `Modifier.itemAt?_of_act?`: what a coercion makes of a value, item by item.
* `Projection.get_suffix_eq_get_bar` is the result for expressions, for all their texts, and
  for the sources of rules.
-/

namespace Reshape

/-! ## Modifiers that act item by item -/

namespace Modifier

/-- An array is changed by changing its items. -/
def IsItemwise (m : Modifier) : Prop :=
  ∀ items, m.act? (.array items) = some (.array (items.filterMap m.act?))

/-- The modifiers that turn every value into a number, a truth value or a string. -/
def coercions : List Modifier := [.toNumber, .toBool, .toText]

end Modifier

namespace Document

theorem mapLeavesList_eq (f : Document → Document) (items : List Document) :
    mapLeavesList f items = items.map (mapLeaves f) := by
  induction items with
  | nil => rfl
  | cons item items ih => rw [mapLeavesList, ih, List.map_cons]

theorem mapLeaves_array (f : Document → Document) (items : List Document) :
    (array items).mapLeaves f = .array (items.map (mapLeaves f)) := by
  rw [mapLeaves, mapLeavesList_eq]

/-- What makes no arrays of leaves keeps the arrays that there are. -/
theorem items?_mapLeaves {f : Document → Document} (hf : ∀ leaf, (f leaf).items? = none)
    (d : Document) : (d.mapLeaves f).items? = d.items?.map (List.map (mapLeaves f)) := by
  cases d with
  | array items => rw [mapLeaves_array, items?, items?, Option.map_some]
  | _ => exact hf _

theorem itemAt?_mapLeaves {f : Document → Document} (hf : ∀ leaf, (f leaf).items? = none)
    (indices : List Nat) (d : Document) :
    (d.mapLeaves f).itemAt? indices = (d.itemAt? indices).map (mapLeaves f) := by
  induction indices generalizing d with
  | nil => rfl
  | cons i rest ih =>
    rw [itemAt?, itemAt?, items?_mapLeaves hf]
    cases d.items? with
    | none => rfl
    | some items =>
      rw [Option.map_some, Option.bind_some, Option.bind_some, List.getElem?_map]
      cases items[i]? with
      | none => rfl
      | some item => exact ih item

end Document

namespace Modifier

variable {m : Modifier}

/-- A coercion does something to each leaf, and makes no arrays. -/
theorem exists_mapLeaves (hm : m ∈ coercions) :
    ∃ f : Document → Document, (∀ leaf, (f leaf).items? = none) ∧
      m.act? = fun d => some (d.mapLeaves f) := by
  simp only [coercions, List.mem_cons, List.not_mem_nil, or_false] at hm
  rcases hm with rfl | rfl | rfl
  · exact ⟨fun leaf => .number leaf.leafNumber, fun _ => rfl, rfl⟩
  · exact ⟨fun leaf => .bool leaf.leafBool, fun _ => rfl, rfl⟩
  · exact ⟨fun leaf => .string leaf.leafText, fun _ => rfl, rfl⟩

theorem isItemwise_of_mem_coercions (hm : m ∈ coercions) : m.IsItemwise := by
  obtain ⟨f, -, hact⟩ := exists_mapLeaves hm
  intro items
  rw [hact, List.filterMap_eq_map']
  exact congrArg some (Document.mapLeaves_array f items)

/-- A coerced value has the items of the value, each of them coerced. -/
theorem itemAt?_of_act? (hm : m ∈ coercions) {d coerced : Document}
    (h : m.act? d = some coerced) (indices : List Nat) :
    coerced.itemAt? indices = (d.itemAt? indices).bind m.act? := by
  obtain ⟨f, hf, hact⟩ := exists_mapLeaves hm
  rw [hact] at h ⊢
  obtain rfl : d.mapLeaves f = coerced := Option.some.inj h
  rw [Document.itemAt?_mapLeaves hf, Option.map_eq_bind]
  rfl

theorem exists_act?_eq (hm : m ∈ coercions) (d : Document) : ∃ coerced, m.act? d = some coerced := by
  obtain ⟨f, -, hact⟩ := exists_mapLeaves hm
  exact ⟨d.mapLeaves f, by rw [hact]⟩

end Modifier

/-! ## The end of a path -/

/-- A modifier that acts item by item may be applied to the value of a path instead of at
its end. -/
theorem evalPath?_concat {m : Modifier} (hm : m.IsItemwise) {segments : List Segment}
    (hlast : segments.getLast? ≠ some .each) (d : Document) :
    evalPath? (segments ++ [Segment.modifier m]) d = (evalPath? segments d).bind m.act? := by
  induction segments generalizing d with
  | nil => simp [evalPath?]
  | cons s rest ih =>
    have hrest : rest.getLast? ≠ some .each := by
      intro heach
      have hne : rest ≠ [] := by
        rintro rfl
        simp at heach
      exact hlast (by rw [List.getLast?_cons_of_ne_nil hne, heach])
    have hsteps : evalPath? (rest ++ [Segment.modifier m]) = fun d => (evalPath? rest d).bind m.act? :=
      funext (ih hrest)
    cases s with
    | key name =>
      rw [List.cons_append, evalPath?, evalPath?, hsteps, Option.bind_assoc]
    | modifier other =>
      rw [List.cons_append, evalPath?, evalPath?, hsteps, Option.bind_assoc]
    | each =>
      -- the path goes on, so each item is followed to the end
      obtain ⟨next, others, rfl⟩ : ∃ next others, rest = next :: others := by
        apply List.exists_cons_of_ne_nil
        rintro rfl
        exact hlast rfl
      rw [List.cons_append] at hsteps
      rw [List.cons_append, List.cons_append, evalPath?, evalPath?, hsteps]
      cases d.items? with
      | none => rfl
      | some items =>
        rw [Option.map_some, Option.map_some, Option.bind_some, hm, List.filterMap_filterMap]

/-! ## Texts -/

theorem Rule.coercedSource_eq (coercions : Coercions) (rule : Rule) :
    rule.coercedSource coercions = rule.coercedSource [] ++
      ((coercions.find rule.target.type).map (·.suffix)).getD [] := by
  have hnone : Coercions.find [] rule.target.type = none := rfl
  rw [coercedSource, coercedSource, hnone, Option.map_none, Option.getD_none, List.append_nil]

namespace Projection

variable {segments : List Segment} {m : Modifier}

theorem eval?_path (segments : List Segment) (d : Document) :
    Expression.eval? [.path segments] d = evalPath? segments d :=
  Option.bind_fun_some (evalPath? segments d)

theorem eval?_path_bar (segments : List Segment) (m : Modifier) (d : Document) :
    Expression.eval? [.path segments, .path [.modifier m]] d =
      (evalPath? segments d).bind m.act? := by
  have hstage : Expression.pass? [.path [.modifier m]] = m.act? := by
    funext value
    simp [Expression.pass?, Stage.eval?, evalPath?]
  rw [← hstage]
  rfl

/-- A pipeline of paths has no literals, and so no nesting is too deep for it. -/
theorem evaluate_of_depth_eq_zero {e : Expression} (h : Expression.depth e = 0) (maxDepth : Nat)
    (d : Document) : evaluate maxDepth e d = .ok (Expression.eval? e d) := by
  rw [evaluate, h, if_neg (Nat.not_lt_zero maxDepth)]

theorem spelling_of_mem_coercions (hm : m ∈ Modifier.coercions) :
    Segment.Spelling (.modifier m) m.text := by
  simp only [Modifier.coercions, List.mem_cons, List.not_mem_nil, or_false] at hm
  rcases hm with rfl | rfl | rfl <;> exact .modifier (.plain (by decide))

theorem spelling_suffix {texts : List Text} (hne : segments ≠ [])
    (htexts : List.Forall₂ Segment.Spelling segments texts) {text : Text}
    (hm : Segment.Spelling (.modifier m) text) :
    Spelling (.expression [.path (segments ++ [Segment.modifier m])])
      (Text.join ['.'] texts ++ '.' :: text) := by
  have htextsNe : texts ≠ [] := by
    rintro rfl
    exact hne (List.forall₂_nil_right_iff.1 htexts)
  have hjoin : Text.join ['.'] (texts ++ [text]) = Text.join ['.'] texts ++ '.' :: text :=
    Path.ofSegments_concat htextsNe text
  have hall : List.Forall₂ Segment.Spelling (segments ++ [Segment.modifier m]) (texts ++ [text]) :=
    List.rel_append htexts (.cons hm .nil)
  have hspelling := Spelling.expression
    (@Spelling.path [] _ _ rfl (by simp) hall) (@Spelling.done [] rfl)
  rwa [List.append_nil, List.nil_append, hjoin] at hspelling

theorem spelling_bar {texts : List Text} (hne : segments ≠ [])
    (htexts : List.Forall₂ Segment.Spelling segments texts) {text : Text}
    (hm : Segment.Spelling (.modifier m) text) :
    Spelling (.expression [.path segments, .path [.modifier m]])
      (Text.join ['.'] texts ++ '|' :: text) := by
  have hlast := @Spelling.path [] _ _ rfl (by simp) (.cons hm .nil)
  have hspelling := Spelling.expression (@Spelling.path [] _ _ rfl hne htexts)
    (@Spelling.bar [] _ _ _ _ rfl hlast (@Spelling.done [] rfl))
  simpa using hspelling

/-- A coercion at the end of a path coerces the value of the path, whatever the path does on
the way, unless it ends in a `#`.

* The path with the coercion at its end has the same value as the path and the coercion as
  two stages, or no value like it.
* What the path with the coercion gives has the items of what the path gives, under any number
  of arrays, each of them coerced.
* So it is for all texts of the path, whatever nesting is allowed, and for the source of a
  rule that a table extends by the coercion. -/
theorem get_suffix_eq_get_bar (hne : segments ≠ []) (hlast : segments.getLast? ≠ some .each)
    (hm : m ∈ Modifier.coercions) (d : Document) :
    Expression.eval? [.path (segments ++ [Segment.modifier m])] d =
        Expression.eval? [.path segments, .path [.modifier m]] d ∧
      (∀ value, Expression.eval? [.path segments] d = some value →
        ∃ coerced, Expression.eval? [.path (segments ++ [Segment.modifier m])] d = some coerced ∧
          ∀ indices, coerced.itemAt? indices = (value.itemAt? indices).bind m.act?) ∧
      ∀ texts, List.Forall₂ Segment.Spelling segments texts → ∀ maxDepth,
        get maxDepth d (Text.join ['.'] texts ++ '.' :: m.text) =
            get maxDepth d (Text.join ['.'] texts ++ '|' :: m.text) ∧
          get maxDepth d (Text.join ['.'] texts ++ '.' :: m.text) =
            .ok ((evalPath? segments d).bind m.act?) ∧
          ∀ (coercions : Coercions) (rule : Rule),
            rule.coercedSource [] = Text.join ['.'] texts →
            (coercions.find rule.target.type).map (·.suffix) = some ('.' :: m.text) →
            get maxDepth d (rule.coercedSource coercions) =
              .ok ((evalPath? segments d).bind m.act?) := by
  have hvalue := evalPath?_concat (Modifier.isItemwise_of_mem_coercions hm) hlast d
  refine ⟨?_, ?_, ?_⟩
  · rw [eval?_path, hvalue, eval?_path_bar]
  · intro value hpath
    obtain ⟨coerced, hcoerced⟩ := Modifier.exists_act?_eq hm value
    refine ⟨coerced, ?_, Modifier.itemAt?_of_act? hm hcoerced⟩
    rw [eval?_path] at hpath ⊢
    rw [hvalue, hpath, Option.bind_some, hcoerced]
  · intro texts htexts maxDepth
    have hspelling := spelling_of_mem_coercions hm
    have hsuffix : get maxDepth d (Text.join ['.'] texts ++ '.' :: m.text) =
        .ok ((evalPath? segments d).bind m.act?) := by
      rw [(spelling_suffix hne htexts hspelling).get_eq, evaluate_of_depth_eq_zero rfl, eval?_path,
        hvalue]
    have hbar : get maxDepth d (Text.join ['.'] texts ++ '|' :: m.text) =
        .ok ((evalPath? segments d).bind m.act?) := by
      rw [(spelling_bar hne htexts hspelling).get_eq, evaluate_of_depth_eq_zero rfl, eval?_path_bar]
    refine ⟨hsuffix.trans hbar.symm, hsuffix, ?_⟩
    intro coercions rule hsource hcoercion
    rw [Rule.coercedSource_eq, hsource, hcoercion, Option.getD_some, hsuffix]

/-- A path with a modifier between two `#`. -/
def doneSteps : List Segment :=
  [.key "rows".toList, .each, .modifier .flatten, .each, .key "done".toList]

def doneTexts : List Text :=
  ["rows".toList, "#".toList, "@flatten".toList, "#".toList, "done".toList]

theorem spelling_doneTexts : List.Forall₂ Segment.Spelling doneSteps doneTexts :=
  .cons (.key (by decide) (by decide)
      (.plain rfl (.plain rfl (.plain rfl (.plain rfl .nil)))) (by decide))
    (.cons .each (.cons (.modifier (.plain (by decide))) (.cons .each
      (.cons (.key (by decide) (by decide)
        (.plain rfl (.plain rfl (.plain rfl (.plain rfl .nil)))) (by decide)) .nil))))

/-- Rows of which one is no array, with an item that lacks the key and one that has an array
under it. -/
def doneSheet : Document :=
  .object [("rows".toList, .array
    [.array [.array [.object [("done".toList, .string " t".toList)]],
        .object [("open".toList, .null)]],
      .string "rest".toList,
      .array [.array [.object [("done".toList, .array [.bool true, .string "no".toList])]]]])]

theorem get_suffix_eq_get_bar_rows :
    get 0 doneSheet "rows.#.@flatten.#.done.@tobool".toList =
        get 0 doneSheet "rows.#.@flatten.#.done|@tobool".toList ∧
      get 0 doneSheet (Rule.coercedSource .standard
          ⟨⟨"rows.#.@flatten.#.done".toList, []⟩, ⟨"flags".toList, "Boolean".toList⟩⟩) =
        .ok (some (.array [.array [.bool true], .array [.array [.bool true, .bool false]]])) ∧
      get 0 .null "rows.#.@flatten.#.done.@tobool".toList = .ok none := by
  have hsuffix : "rows.#.@flatten.#.done.@tobool".toList =
      Text.join ['.'] doneTexts ++ '.' :: Modifier.toBool.text := by decide
  have hbar : "rows.#.@flatten.#.done|@tobool".toList =
      Text.join ['.'] doneTexts ++ '|' :: Modifier.toBool.text := by decide
  have hvalue : (evalPath? doneSteps doneSheet).bind Modifier.toBool.act? =
      some (.array [.array [.bool true], .array [.array [.bool true, .bool false]]]) := rfl
  obtain ⟨-, -, htexts⟩ := @get_suffix_eq_get_bar doneSteps .toBool (by decide) (by decide)
    (by decide) doneSheet
  obtain ⟨-, -, hnothing⟩ := @get_suffix_eq_get_bar doneSteps .toBool (by decide) (by decide)
    (by decide) .null
  rw [hsuffix, hbar, ← hvalue]
  refine ⟨(htexts _ spelling_doneTexts 0).1, ?_, (hnothing _ spelling_doneTexts 0).2.1⟩
  exact (htexts _ spelling_doneTexts 0).2.2 .standard _ (by decide) (by decide)

end Projection

end Reshape
