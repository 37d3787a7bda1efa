import Reshape.Proofs.Compile
import Reshape.Proofs.NormalForm

/-!
# Brackets and nested literals

The nesting of an expression is counted on the tree that was read, and limits what may be
evaluated.  If no key of the text has escapes or quotes, every bracket of the text opens or
closes a literal.  Then the nesting can be counted on the text alone: it is the largest
excess of opening over closing brackets at any place of the text.

* `Text.isGreatest_nesting`: what `Text.nesting` computes in one pass is that excess.
* `Reads.nesting_eq`: what is read from a text brings in as much nesting as its tree has.
  Keys, blanks and separators bring in none; the parts of a literal also close it.
* `isGreatest_depth`: the result for whole texts, and for the limit.
-/

namespace Reshape

/-! ## The excess of opening brackets -/

namespace Text

/-- The number of opening brackets less the number of closing ones. -/
def excess (text : Text) : ℤ :=
  text.countP (· ∈ ['{', '[']) - text.countP (· ∈ ['}', ']'])

@[simp] theorem excess_nil : excess [] = 0 := rfl

theorem excess_cons (c : Char) (text : Text) :
    excess (c :: text) = excess text +
      if c = '{' ∨ c = '[' then 1 else if c = '}' ∨ c = ']' then -1 else 0 := by
  unfold excess
  rw [List.countP_cons, List.countP_cons]
  by_cases hopen : c = '{' ∨ c = '['
  · have hclose : c ∉ ['}', ']'] := by rcases hopen with rfl | rfl <;> decide
    simp [hopen, hclose]
    omega
  · by_cases hclose : c = '}' ∨ c = ']'
    · simp [hopen, hclose]
      omega
    · simp [hopen, hclose]

theorem excess_le_nesting {start text : Text} (h : start <+: text) :
    excess start ≤ nesting text := by
  induction text generalizing start with
  | nil =>
    rw [List.prefix_nil.1 h, excess_nil]
    exact Int.natCast_nonneg _
  | cons c text ih =>
    cases start with
    | nil => exact Int.natCast_nonneg _
    | cons d start =>
      obtain ⟨rfl, hstart⟩ := List.cons_prefix_cons.1 h
      have hle := ih hstart
      rw [excess_cons, nesting]
      split_ifs <;> omega

theorem exists_excess_eq_nesting (text : Text) :
    ∃ start, start <+: text ∧ excess start = nesting text := by
  induction text with
  | nil => exact ⟨[], List.prefix_rfl, rfl⟩
  | cons c text ih =>
    obtain ⟨start, hstart, heq⟩ := ih
    by_cases hclose : (c = '}' ∨ c = ']') ∧ nesting text = 0
    · -- nothing is open behind the bracket, so the empty prefix has the largest excess
      refine ⟨[], List.nil_prefix, ?_⟩
      have hopen : ¬ (c = '{' ∨ c = '[') := by
        rcases hclose.1 with rfl | rfl <;> decide
      rw [nesting, if_neg hopen, if_pos hclose.1, hclose.2, excess_nil]
      rfl
    · refine ⟨c :: start, List.cons_prefix_cons.2 ⟨rfl, hstart⟩, ?_⟩
      rw [excess_cons, nesting, heq]
      split_ifs with hopen hbracket
      · omega
      · have hpositive : nesting text ≠ 0 := fun hzero => hclose ⟨hbracket, hzero⟩
        omega
      · omega

/-- The nesting of a text is the largest excess of opening brackets over all its prefixes. -/
theorem isGreatest_nesting (text : Text) :
    IsGreatest (excess '' {start | start <+: text}) (nesting text) := by
  refine ⟨exists_excess_eq_nesting text, ?_⟩
  rintro _ ⟨start, hstart, rfl⟩
  exact excess_le_nesting hstart

end Text

namespace Projection

open Text

/-! ## What is read -/

/-- A class of characters that no bracket belongs to. -/
theorem notMem_brackets {p : Char → Bool} (hp : brackets.all (!p ·) = true) {c : Char}
    (hc : p c = true) : c ∉ brackets := by
  intro hbracket
  have hfree := List.all_eq_true.1 hp c hbracket
  rw [hc] at hfree
  exact absurd hfree (by decide)

theorem notMem_brackets_of_isDelimiter {c : Char} (h : isDelimiter c = false) : c ∉ brackets := by
  intro hbracket
  rw [(of_mem_brackets hbracket).1] at h
  exact absurd h (by decide)

theorem nesting_append_of_free {taken : Text} (h : ∀ c ∈ taken, c ∉ brackets) (rest : Text) :
    nesting (taken ++ rest) = nesting rest := by
  rw [Nests.of_free h rest, Nat.zero_max]

theorem nesting_cons_of_notMem {c : Char} (h : c ∉ brackets) (rest : Text) :
    nesting (c :: rest) = nesting rest :=
  @nesting_append_of_free [c] (by simpa using h) rest

theorem nesting_skipBlanks (text : Text) : nesting text.skipBlanks = nesting text := by
  have hblanks : ∀ c ∈ text.takeWhile isBlank, c ∉ brackets :=
    fun c hc => notMem_brackets (by decide) (List.mem_takeWhile_imp hc)
  have hsplit := nesting_append_of_free hblanks text.skipBlanks
  rw [skipBlanks, trimStart, List.takeWhile_append_dropWhile] at hsplit
  exact hsplit.symm

/-- Blanks before a character do not count. -/
theorem nesting_of_skipBlanks {text rest : Text} (h : text.skipBlanks = rest) :
    nesting text = nesting rest := by
  rw [← h, nesting_skipBlanks]

/-- A segment without escapes brings in no brackets. -/
theorem nesting_of_segment {text rest : Text} {s : Segment} (htext : '\\' ∉ text)
    (h : segment text = .ok (s, rest)) : nesting text = nesting rest := by
  rcases segment_cases h with ⟨tail, rfl, hmodifier⟩ | ⟨-, -, rfl, -⟩
  · have hat : '@' ∉ brackets := by decide
    rw [nesting_cons_of_notMem hat]
    obtain ⟨name, m, -, ⟨hm, rfl⟩ | ⟨digits, levels, hword, hm, rfl⟩⟩ := modifier_cases hmodifier
    · have hname := List.all_eq_true.1 (all_isNameChar_of_ofName? hm)
      exact nesting_append_of_free (fun c hc => notMem_brackets (by decide) (hname c hc)) rest
    · have hname := List.all_eq_true.1 (all_isNameChar_of_ofName? hm)
      have hdigits := List.all_eq_true.1 (all_isDigit_of_word? hword)
      refine nesting_append_of_free (fun c hc => ?_) rest
      rw [List.mem_append, List.mem_cons] at hc
      rcases hc with hc | rfl | hc
      · exact notMem_brackets (by decide) (hname c hc)
      · decide
      · exact notMem_brackets (by decide) (hdigits c hc)
  · obtain ⟨hscan, hplain⟩ := scanKey_of_notMem htext
    have hfree : ∀ c ∈ (scanKey text).1, c ∉ brackets := by
      intro c hc
      have hends := (isSpecial_eq_false_iff.1 (hplain c hc)).2
      simp only [endsKey, Bool.or_eq_false_iff] at hends
      exact notMem_brackets_of_isDelimiter hends.2
    nth_rewrite 1 [hscan]
    exact nesting_append_of_free hfree _

theorem ReadsPath.nesting_eq {text rest : Text} {segments : List Segment}
    (h : ReadsPath text segments rest) (htext : '\\' ∉ text) : nesting text = nesting rest := by
  induction h with
  | last hfirst _ => exact nesting_of_segment htext hfirst
  | @dot text next rest first others hfirst _ ih =>
    have hsuffix := (List.suffix_cons '.' next).trans (segment_passes hfirst).1
    have hdot : '.' ∉ brackets := by decide
    rw [nesting_of_segment htext hfirst, nesting_cons_of_notMem hdot]
    exact ih fun hmem => htext (hsuffix.subset hmem)

/-- A key of a member brings in no brackets, if it has no quotes. -/
theorem nesting_of_memberKey {text rest : Text} {key : Option Text} (htext : '"' ∉ text)
    (h : memberKey text = .ok (key, rest)) : nesting text = nesting rest := by
  rcases memberKey_cases h with ⟨tail, quoted, after, rfl, -⟩ | ⟨-, rfl⟩ | ⟨raw, rfl, hfree, -⟩
  · exact absurd (List.mem_cons_self ..) htext
  · rfl
  · have hraw : ∀ c ∈ raw, c ∉ brackets := by
      intro c hc
      have hends := (hfree c hc).2
      rw [endsBareKey, Bool.or_eq_false_iff] at hends
      exact notMem_brackets_of_isDelimiter hends.1
    have hcolon : ':' ∉ brackets := by decide
    rw [nesting_append_of_free hraw, nesting_cons_of_notMem hcolon]

/-- The nesting of the literals in a phrase. -/
def Phrase.depth : Phrase → Nat
  | .expression stages => Expression.depth stages
  | .pipeline stages => Expression.depth stages
  | .stage s => s.depth
  | .members list => Stage.depthOfMembers list
  | .items list => Stage.depthOfItems list

/-- The number of brackets that a phrase closes without opening them. -/
def Phrase.closed : Phrase → Nat
  | .members _ => 1
  | .items _ => 1
  | _ => 0

section

variable {rest : Text}

theorem nesting_open {c : Char} (h : c = '{' ∨ c = '[') : nesting (c :: rest) = nesting rest + 1 := by
  rw [nesting, if_pos h]

theorem nesting_close {c : Char} (h : c = '}' ∨ c = ']') : nesting (c :: rest) = nesting rest - 1 := by
  have hopen : ¬ (c = '{' ∨ c = '[') := by
    rcases h with rfl | rfl <;> decide
  rw [nesting, if_neg hopen, if_pos h]

theorem nesting_comma : nesting (',' :: rest) = nesting rest :=
  nesting_cons_of_notMem (by decide) rest

end

/-- What is read brings in as much nesting as its tree has, and leaves to the rest of the text
what it closes. -/
theorem Reads.nesting_eq {phrase : Phrase} {text rest : Text} (h : Reads phrase text rest)
    (htext : text.IsUnescaped) :
    nesting text = max phrase.depth (nesting rest - phrase.closed) := by
  induction h with
  | expression hfirst _ ihFirst ihOthers =>
    have hothers := ihOthers (htext.of_suffix hfirst.passes.1)
    have hfirst := ihFirst htext
    simp only [Phrase.depth, Phrase.closed, Expression.depth] at hfirst hothers ⊢
    omega
  | @done text _ =>
    simp only [Phrase.depth, Phrase.closed, Expression.depth, nesting_skipBlanks]
    omega
  | bar hbar hfirst _ ihFirst ihOthers =>
    have hnext := htext.of_suffix (passes_of_skipBlanks hbar).1
    have hothers := ihOthers (hnext.of_suffix hfirst.passes.1)
    have hfirst := ihFirst hnext
    have htext := nesting_of_skipBlanks hbar
    rw [nesting_cons_of_notMem (by decide)] at htext
    simp only [Phrase.depth, Phrase.closed, Expression.depth] at hfirst hothers ⊢
    omega
  | path hstart _ hsegments =>
    have hpath := hsegments.nesting_eq (htext.of_suffix (suffix_of_skipBlanks hstart)).1
    rw [nesting_of_skipBlanks hstart, hpath]
    simp only [Phrase.depth, Phrase.closed, Stage.depth]
    omega
  | object hstart _ ih =>
    have hmembers := ih (htext.of_suffix (passes_of_skipBlanks hstart).1)
    rw [nesting_of_skipBlanks hstart, nesting_open (.inl rfl), hmembers]
    simp only [Phrase.depth, Phrase.closed, Stage.depth]
    omega
  | array hstart _ ih =>
    have hitems := ih (htext.of_suffix (passes_of_skipBlanks hstart).1)
    rw [nesting_of_skipBlanks hstart, nesting_open (.inr rfl), hitems]
    simp only [Phrase.depth, Phrase.closed, Stage.depth]
    omega
  | noMember hend =>
    rw [nesting_of_skipBlanks hend, nesting_close (.inl rfl)]
    simp only [Phrase.depth, Phrase.closed, Stage.depthOfMembers]
    omega
  | lastMember hstart _ hkey _ hend ih =>
    have hstart' := htext.of_suffix (suffix_of_skipBlanks hstart)
    have hvalue := ih (hstart'.of_suffix (memberKey_suffix hkey))
    rw [nesting_of_skipBlanks hend, nesting_close (.inl rfl)] at hvalue
    rw [nesting_of_skipBlanks hstart, nesting_of_memberKey hstart'.2 hkey, hvalue]
    simp only [Phrase.depth, Phrase.closed, Stage.depthOfMembers]
    omega
  | nextMember hstart _ hkey hvalue hcomma _ ihValue ihOthers =>
    have hstart' := htext.of_suffix (suffix_of_skipBlanks hstart)
    have hnext := hstart'.of_suffix (memberKey_suffix hkey)
    have hothers := ihOthers
      (hnext.of_suffix (hvalue.passes.trans (passes_of_skipBlanks hcomma)).1)
    have hvalue := ihValue hnext
    rw [nesting_of_skipBlanks hcomma, nesting_comma, hothers] at hvalue
    rw [nesting_of_skipBlanks hstart, nesting_of_memberKey hstart'.2 hkey, hvalue]
    simp only [Phrase.depth, Phrase.closed, Stage.depthOfMembers]
    omega
  | noItem hend =>
    rw [nesting_of_skipBlanks hend, nesting_close (.inr rfl)]
    simp only [Phrase.depth, Phrase.closed, Stage.depthOfItems]
    omega
  | lastItem hstart _ _ hend ih =>
    have hitem := ih (htext.of_suffix (suffix_of_skipBlanks hstart))
    rw [nesting_of_skipBlanks hend, nesting_close (.inr rfl)] at hitem
    rw [nesting_of_skipBlanks hstart, hitem]
    simp only [Phrase.depth, Phrase.closed, Stage.depthOfItems]
    omega
  | nextItem hstart _ hitem hcomma _ ihItem ihOthers =>
    have hstart' := htext.of_suffix (suffix_of_skipBlanks hstart)
    have hothers := ihOthers
      (hstart'.of_suffix (hitem.passes.trans (passes_of_skipBlanks hcomma)).1)
    have hitem := ihItem hstart'
    rw [nesting_of_skipBlanks hcomma, nesting_comma, hothers] at hitem
    rw [nesting_of_skipBlanks hstart, hitem]
    simp only [Phrase.depth, Phrase.closed, Stage.depthOfItems]
    omega

/-- An expression is nested as deeply as the brackets of the text that it was read from. -/
theorem nesting_eq_depth {text : Text} {e : Expression} (htext : text.IsUnescaped)
    (h : parse text = .ok e) : nesting text = Expression.depth e := by
  obtain ⟨rest, hreads, hend⟩ := parse_eq_ok_iff.1 h
  have hrest : nesting rest = 0 := by
    rw [nesting_of_skipBlanks hend]
    rfl
  rw [hreads.nesting_eq htext, hrest]
  exact Nat.max_zero _

/-- Whether evaluating fails is decided by the nesting alone. -/
theorem evaluate_cases (maxDepth : Nat) (e : Expression) (d : Document) :
    (maxDepth < Expression.depth e ∧
        ∃ message shown, evaluate maxDepth e d = .error (.execution message shown)) ∨
      (Expression.depth e ≤ maxDepth ∧ ∃ value, evaluate maxDepth e d = .ok value) := by
  unfold evaluate
  split_ifs with hdeep
  · exact .inl ⟨hdeep, _, _, rfl⟩
  · exact .inr ⟨Nat.le_of_not_lt hdeep, _, rfl⟩

/-- Without backslashes and quotes in the text, the nesting of an expression is the largest
excess of opening over closing brackets at any place of its text.  Evaluating the text fails
for its nesting if that excess is over the limit somewhere, whatever the document is, and
gives an answer otherwise. -/
theorem isGreatest_depth {text : Text} {e : Expression} (hescape : '\\' ∉ text)
    (hquote : '"' ∉ text) (h : parse text = .ok e) :
    IsGreatest (Text.excess '' {start | start <+: text}) (Expression.depth e) ∧
      ∀ maxDepth d,
        ((∃ message shown, get maxDepth d text = .error (.execution message shown)) ↔
          ∃ start, start <+: text ∧ maxDepth < Text.excess start) ∧
        ((∃ value, get maxDepth d text = .ok value) ↔
          ∀ start, start <+: text → Text.excess start ≤ maxDepth) := by
  have hgreatest := Text.isGreatest_nesting text
  rw [nesting_eq_depth ⟨hescape, hquote⟩ h] at hgreatest
  refine ⟨hgreatest, fun maxDepth d => ?_⟩
  obtain ⟨⟨deepest, hdeepest, hdepth⟩, hbound⟩ := hgreatest
  rw [get_of_parse h]
  rcases evaluate_cases maxDepth e d with
    ⟨hdeep, message, shown, hfails⟩ | ⟨hshallow, value, hgives⟩
  · -- the place of the largest excess is over the limit
    have hover : maxDepth < Text.excess deepest := by omega
    rw [hfails]
    refine ⟨iff_of_true ⟨message, shown, rfl⟩ ⟨deepest, hdeepest, hover⟩, ?_⟩
    refine iff_of_false (by simp) fun hall => ?_
    exact absurd (hall deepest hdeepest) (Int.not_le.2 hover)
  · have hunder : ∀ start, start <+: text → Text.excess start ≤ maxDepth :=
      fun start hstart => (hbound ⟨start, hstart, rfl⟩).trans (by omega)
    rw [hgives]
    refine ⟨iff_of_false (by simp) ?_, iff_of_true ⟨value, rfl⟩ hunder⟩
    rintro ⟨start, hstart, hover⟩
    exact absurd (hunder start hstart) (Int.not_le.2 hover)

/-- Literals beside and inside each other, the deepest of them behind a bar in an array. -/
def layeredText : Text :=
  "[{ p.q , k :[r]}, s | [{t:[u,{ v } ]}] |{} ,[]] ".toList

theorem isGreatest_depth_layered :
    ('\\' ∉ layeredText ∧ '"' ∉ layeredText ∧ (parse layeredText).toOption.isSome = true) ∧
      IsGreatest (Text.excess '' {start | start <+: layeredText}) 5 ∧
      ∀ d, (∃ message shown, get 4 d layeredText = .error (.execution message shown)) ∧
        ∃ value, get 5 d layeredText = .ok value := by
  have hescape : '\\' ∉ layeredText := by decide +kernel
  have hquote : '"' ∉ layeredText := by decide +kernel
  have hdepth : (parse layeredText).toOption.map Expression.depth = some 5 := by decide +kernel
  obtain ⟨e, hsome, hdepth⟩ := Option.map_eq_some_iff.1 hdepth
  have hparse : parse layeredText = .ok e := by
    cases h : parse layeredText with
    | error fault => simp [h, Except.toOption] at hsome
    | ok e' => simpa [h, Except.toOption] using hsome
  obtain ⟨hgreatest, hlimit⟩ := isGreatest_depth hescape hquote hparse
  rw [hdepth] at hgreatest
  obtain ⟨⟨deepest, hdeepest, hexcess⟩, hbound⟩ := id hgreatest
  refine ⟨⟨hescape, hquote, by rw [hsome]; rfl⟩, hgreatest, fun d => ⟨?_, ?_⟩⟩
  · exact (hlimit 4 d).1.2 ⟨deepest, hdeepest, by omega⟩
  · exact (hlimit 5 d).2.2 fun start hstart => hbound ⟨start, hstart, rfl⟩

end Projection

end Reshape
