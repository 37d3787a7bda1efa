import Reshape.Proofs.CoercionSuffix

/-!
# Integers through strings

The text of an integer is read back as the integer, as long as it is in the range in which
integers are kept exact: the sign is taken off, all that is left are digits, and their value
is in range, so that the text is not taken for a decimal.

* `Number.ofText_integerText` is this for one integer.
* `Projection.get_integers_through_texts` is the result for documents of integers, under any
  number of arrays.
-/

namespace Reshape

/-! ## One integer -/

namespace Number

theorem inRange_iff {n : Int} : inRange n = true ↔ -2 ^ 63 ≤ n ∧ n < 2 ^ 64 := by
  rw [inRange, Bool.and_eq_true, decide_eq_true_eq, decide_eq_true_eq]
  rfl

/-- The text of an integer is its decimal notation. -/
theorem integerText_eq_toString (n : Int) : integerText n = (toString n).toList := by
  cases n with
  | ofNat n => simp [integerText, Text.ofNat, toString, Int.repr, Nat.repr]
  | negSucc n => simp [integerText, Text.ofNat, toString, Int.repr, Nat.repr]

theorem spanDigits_ofNat (n : Nat) : spanDigits (Text.ofNat n) = (Text.ofNat n, []) := by
  have hdigits : ∀ c ∈ Text.ofNat n, c.isDigit = true := fun _ hc => Text.isDigit_of_mem_ofNat hc
  rw [spanDigits, List.span_eq_takeWhile_dropWhile, List.takeWhile_eq_self_iff.2 hdigits,
    List.dropWhile_eq_nil_iff.2 hdigits]

theorem spanSign_ofNat (n : Nat) : spanSign (Text.ofNat n) = (false, Text.ofNat n) := by
  obtain ⟨c, rest, hcons⟩ := List.exists_cons_of_ne_nil (Text.ofNat_ne_nil n)
  have hc : c.isDigit = true := Text.isDigit_of_mem_ofNat (hcons ▸ List.mem_cons_self)
  rw [hcons, spanSign]
  · rintro rest' ⟨⟩
    simp at hc
  · rintro rest' ⟨⟩
    simp at hc

theorem spanSign_integerText (n : Int) :
    spanSign (integerText n) = (decide (n < 0), Text.ofNat n.natAbs) := by
  rw [integerText]
  by_cases hn : n < 0
  · rw [if_pos hn, spanSign, decide_eq_true hn]
  · rw [if_neg hn, spanSign_ofNat, decide_eq_false hn]

theorem ofDecimalText?_integerText {n : Int} (h : inRange n = true) :
    ofDecimalText? (integerText n) = some (.integer n) := by
  have hvalue : (if decide (n < 0) = true then -(n.natAbs : Int) else n.natAbs) = n := by
    by_cases hn : n < 0
    · rw [decide_eq_true hn, if_pos rfl]
      omega
    · rw [decide_eq_false hn, if_neg Bool.false_ne_true]
      omega
  have hne : (Text.ofNat n.natAbs).isEmpty = false :=
    List.isEmpty_eq_false_iff.2 (Text.ofNat_ne_nil _)
  simp only [ofDecimalText?, spanSign_integerText, spanDigits_ofNat, Text.digitsValue_ofNat, hvalue,
    hne, h, List.isEmpty_nil, Bool.not_false, Bool.and_self, if_true]

theorem isBlank_of_mem_integerText {n : Int} {c : Char} (h : c ∈ integerText n) :
    isBlank c = false := by
  have hplain : Text.isPlainChar c = true := by
    rw [integerText] at h
    split at h
    · rcases List.mem_cons.1 h with rfl | hdigit
      · decide
      · simp [Text.isPlainChar, Char.isAlphanum, Text.isDigit_of_mem_ofNat hdigit]
    · simp [Text.isPlainChar, Char.isAlphanum, Text.isDigit_of_mem_ofNat h]
  exact Text.isBlank_of_isPlainChar hplain

/-- An integer in range is read back from its text. -/
theorem ofText_integerText {n : Int} (h : inRange n = true) :
    ofText (integerText n) = .integer n := by
  have htrim : (integerText n).trim = integerText n :=
    Text.trim_eq_self (fun _ hc => isBlank_of_mem_integerText (List.mem_of_mem_head? hc))
      fun _ hc => isBlank_of_mem_integerText (List.mem_of_mem_getLast? hc)
  rw [ofText, htrim, ofDecimalText?_integerText h, Option.getD_some]

end Number

/-! ## Documents of integers -/

namespace Document

/-- Integers in range, under any number of arrays. -/
inductive IsIntegral : Document → Prop where
  | number {n : Int} (hlow : -2 ^ 63 ≤ n) (hhigh : n < 2 ^ 64) : IsIntegral (.number (.integer n))
  | array {items : List Document} (hitems : ∀ item ∈ items, IsIntegral item) :
      IsIntegral (.array items)

theorem IsIntegral.nil : IsIntegral (.array []) :=
  .array (by simp)

theorem IsIntegral.cons {item : Document} {items : List Document} (hitem : item.IsIntegral)
    (h : IsIntegral (.array items)) : IsIntegral (.array (item :: items)) := by
  cases h with
  | array hitems => exact .array (List.forall_mem_cons.2 ⟨hitem, hitems⟩)

theorem IsIntegral.toNumber_toText {d : Document} (h : d.IsIntegral) : d.toText.toNumber = d := by
  induction h with
  | number hlow hhigh =>
    exact congrArg Document.number (Number.ofText_integerText (Number.inRange_iff.2 ⟨hlow, hhigh⟩))
  | @array items _ ih =>
    rw [toText, mapLeaves_array, toNumber, mapLeaves_array, List.map_map]
    exact congrArg Document.array ((List.map_congr_left ih).trans (List.map_id items))

end Document

namespace Projection

variable {m : Modifier}

theorem get_coercion (hm : m ∈ Modifier.coercions) (maxDepth : Nat) (d : Document) :
    get maxDepth d m.text = .ok (m.act? d) := by
  have hspelling : Spelling (.expression [.path [.modifier m]]) m.text := by
    simpa using Spelling.expression
      (@Spelling.path [] _ _ rfl (by simp) (.cons (spelling_of_mem_coercions hm) .nil))
      (@Spelling.done [] rfl)
  rw [hspelling.get_eq, evaluate_of_depth_eq_zero rfl, eval?_path]
  exact congrArg Except.ok (Option.bind_fun_some (m.act? d))

theorem get_coercion_bar {next : Modifier} (hm : m ∈ Modifier.coercions)
    (hnext : next ∈ Modifier.coercions) (maxDepth : Nat) (d : Document) :
    get maxDepth d (m.text ++ '|' :: next.text) = .ok ((m.act? d).bind next.act?) := by
  have hspelling := spelling_bar (List.cons_ne_nil (Segment.modifier m) [])
    (.cons (spelling_of_mem_coercions hm) .nil) (spelling_of_mem_coercions hnext)
  rw [Text.join_singleton] at hspelling
  rw [hspelling.get_eq, evaluate_of_depth_eq_zero rfl, eval?_path_bar]
  exact congrArg (fun value => Except.ok (value.bind next.act?)) (Option.bind_fun_some (m.act? d))

/-- Integers survive a trip through strings.  A document of integers is turned into strings,
each of them the decimal notation of the integer in its place, and the strings are turned into
the document again, in one expression or in two. -/
theorem get_integers_through_texts {d : Document} (h : d.IsIntegral) (maxDepth : Nat) :
    get maxDepth d "@tostring|@tonum".toList = .ok (some d) ∧
      ∃ texts, get maxDepth d "@tostring".toList = .ok (some texts) ∧
        (∀ indices n, d.itemAt? indices = some (.number (.integer n)) →
          texts.itemAt? indices = some (.string (toString n).toList)) ∧
        get maxDepth texts "@tonum".toList = .ok (some d) := by
  have hback := h.toNumber_toText
  have htext : Modifier.toText ∈ Modifier.coercions := by decide
  have hnumber : Modifier.toNumber ∈ Modifier.coercions := by decide
  refine ⟨?_, d.toText, get_coercion htext maxDepth d, ?_, ?_⟩
  · have hget := get_coercion_bar htext hnumber maxDepth d
    rwa [Modifier.act?, Option.bind_some, Modifier.act?, hback] at hget
  · intro indices n hn
    rw [Modifier.itemAt?_of_act? htext rfl, hn, ← Number.integerText_eq_toString]
    rfl
  · have hget := get_coercion hnumber maxDepth d.toText
    rwa [Modifier.act?, hback] at hget

/-- Integers at the ends of the range, under arrays of different depths. -/
def extremes : Document :=
  .array [.number (.integer (-9223372036854775808)),
    .array [.number (.integer 18446744073709551615), .array [],
      .array [.number (.integer 9223372036854775808)]],
    .number (.integer 0)]

theorem get_integers_through_texts_extremes :
    extremes.IsIntegral ∧
      get defaultDepth extremes "@tostring|@tonum".toList = .ok (some extremes) := by
  have hlow : Document.IsIntegral (.number (.integer (-9223372036854775808))) :=
    .number (by norm_num) (by norm_num)
  have hhigh : Document.IsIntegral (.number (.integer 18446744073709551615)) :=
    .number (by norm_num) (by norm_num)
  have hbetween : Document.IsIntegral (.number (.integer 9223372036854775808)) :=
    .number (by norm_num) (by norm_num)
  have hzero : Document.IsIntegral (.number (.integer 0)) := .number (by norm_num) (by norm_num)
  have hintegral : extremes.IsIntegral :=
    .cons hlow (.cons (.cons hhigh (.cons .nil (.cons (.cons hbetween .nil) .nil)))
      (.cons hzero .nil))
  exact ⟨hintegral, (get_integers_through_texts hintegral defaultDepth).1⟩

end Projection

end Reshape
