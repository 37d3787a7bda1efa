import Reshape.Proofs.Grammar

/-!
# The text of what was read

The text of an expression is written without escapes and quotes, so an expression
with an odd key is not read back from its text.  An expression that was read from a
text without backslashes and quotes has no such key: `Reads.spelling_text` shows that
the text of the tree is one of its spellings.  Reading it gives the tree again.

The characters of the keys are what matters.

* A key of a path is cut out of the text and holds no special character
  (`Segment.IsLiteral`).
* A key of a member stands in the text before a colon, or it is a key of the path
  that the value starts with, or it is `_`.  In each case it needs no quotes.
-/

namespace Reshape

/-! ## Texts without escapes -/

/-- Whether a text holds neither backslashes nor quotes. -/
def Text.IsUnescaped (text : Text) : Prop :=
  '\\' ∉ text ∧ '"' ∉ text

theorem Text.IsUnescaped.of_suffix {text rest : Text} (h : text.IsUnescaped)
    (hrest : rest <:+ text) : rest.IsUnescaped :=
  ⟨fun hmem => h.1 (hrest.subset hmem), fun hmem => h.2 (hrest.subset hmem)⟩

/-- Whether a segment is spelled by its own text. -/
def Segment.IsLiteral : Segment → Prop
  | .key name =>
      name ≠ [] ∧ name ≠ ['#'] ∧ name.head? ≠ some '@' ∧ ∀ c ∈ name, Text.isSpecial c = false
  | .each => True
  | .modifier m => ∀ levels, m = .groupPlus levels → levels < 2 ^ 64

theorem Segment.IsLiteral.spelling {s : Segment} (h : s.IsLiteral) : s.Spelling s.text := by
  cases s with
  | key name => exact .key h.1 h.2.1 (.refl h.2.2.2) h.2.2.1
  | each => exact .each
  | modifier m =>
    cases m with
    | groupPlus levels => exact .modifier (.levels 0 (h levels rfl))
    | _ => exact .modifier (.plain (by decide))

/-- A key of a path may be a key of a member without quotes. -/
theorem Segment.IsLiteral.isBareKey {name : Text} (h : (Segment.key name).IsLiteral) :
    name.isBareKey = true := by
  obtain ⟨hne, -, hat, hplain⟩ := h
  have hends : ∀ c ∈ name, Projection.endsKey c = false :=
    fun c hc => (Text.isSpecial_eq_false_iff.1 (hplain c hc)).2
  have hblank : ∀ c ∈ name, isBlank c = false := by
    intro c hc
    have := hends c hc
    simp only [Projection.endsKey, Bool.or_eq_false_iff] at this
    exact this.1.2
  refine Text.isBareKey_iff.2 ⟨hne, ?_, hat, ?_, ?_⟩
  · exact Text.trim_eq_self (fun c hc => hblank c (List.mem_of_mem_head? hc))
      (fun c hc => hblank c (List.mem_of_mem_getLast? hc))
  · intro hquote
    exact absurd (hends '"' (List.mem_of_mem_head? hquote)) (by decide)
  · intro c hc
    have := hends c hc
    simp only [Projection.endsKey, Bool.or_eq_false_iff, beq_eq_false_iff_ne] at this
    simp only [Projection.endsBareKey, Bool.or_eq_false_iff, beq_eq_false_iff_ne]
    tauto

namespace Projection

/-! ## Keys -/

/-- Without backslashes, a key is the start of the text. -/
theorem scanKey_of_notMem {text : Text} (h : '\\' ∉ text) :
    text = (scanKey text).1 ++ (scanKey text).2 ∧
      ∀ c ∈ (scanKey text).1, Text.isSpecial c = false := by
  fun_induction scanKey text with
  | case1 => simp
  | case2 => simp at h
  | case3 c rest key rest' hscan ih => simp at h
  | case4 c rest => simp
  | case5 c rest _ _ hends key rest' hscan ih =>
    rw [List.mem_cons, not_or] at h
    obtain ⟨hrest, hkey⟩ := ih h.2
    rw [hscan] at hrest hkey
    refine ⟨by rw [List.cons_append, ← hrest], ?_⟩
    rw [List.forall_mem_cons]
    refine ⟨Text.isSpecial_eq_false_iff.2 ⟨Ne.symm h.1, by simpa using hends⟩, hkey⟩

theorem lt_of_word? {digits : Text} {n : Nat} (h : Text.word? digits = some n) : n < 2 ^ 64 := by
  unfold Text.word? at h
  split at h
  · simp at h
  · split at h
    · rename_i hbound
      simp only [Option.some.injEq] at h
      exact h ▸ hbound
    · simp at h

theorem levels_of_ofName? {name : Text} {argument : Option Nat} {levels : Nat}
    (h : Modifier.ofName? name argument = some (.groupPlus levels)) :
    levels = argument.getD 0 := by
  unfold Modifier.ofName? at h
  split at h
  · simpa using h.symm
  · split at h
    · simp at h
    · have hm := List.mem_of_find?_eq_some h
      simp [Modifier.plain] at hm

theorem isLiteral_of_segment {text rest : Text} {s : Segment} (htext : '\\' ∉ text)
    (h : segment text = .ok (s, rest)) : s.IsLiteral := by
  rcases segment_cases h with ⟨tail, rfl, hmodifier⟩ | ⟨hat, hne, -, rfl⟩
  · obtain ⟨name, m, rfl, ⟨hm, -⟩ | ⟨digits, argument, hword, hm, -⟩⟩ := modifier_cases hmodifier
    · rintro levels rfl
      rw [levels_of_ofName? hm]
      decide
    · rintro levels rfl
      rw [levels_of_ofName? hm]
      exact lt_of_word? hword
  · obtain ⟨hscan, hplain⟩ := scanKey_of_notMem htext
    split
    · trivial
    · rename_i heach
      refine ⟨hne, heach, fun hhead => hat ?_, hplain⟩
      rw [hscan, List.head?_append_of_ne_nil _ hne, hhead]

theorem ReadsPath.isLiteral {text rest : Text} {segments : List Segment}
    (h : ReadsPath text segments rest) (htext : '\\' ∉ text) : ∀ s ∈ segments, s.IsLiteral := by
  induction h with
  | last hfirst _ =>
    rw [List.forall_mem_singleton]
    exact isLiteral_of_segment htext hfirst
  | dot hfirst _ ih =>
    have hsuffix := (List.suffix_cons '.' _).trans (segment_passes hfirst).1
    rw [List.forall_mem_cons]
    exact ⟨isLiteral_of_segment htext hfirst, ih fun hmem => htext (hsuffix.subset hmem)⟩

theorem implicitKey_path {segments : List Segment} {others : List Stage} {key : Text}
    (h : implicitKey (.path segments :: others) = key) : .key key ∈ segments ∨ key = ['_'] := by
  unfold implicitKey at h
  dsimp only at h
  rcases Option.getD_eq_iff.1 h with hnamed | ⟨-, rfl⟩
  · obtain ⟨s, hs, hkey⟩ := List.exists_of_findSome?_eq_some hnamed
    rw [List.mem_reverse] at hs
    cases s with
    | key name =>
      simp only [Option.some.injEq] at hkey
      exact .inl (hkey ▸ hs)
    | each => simp at hkey
    | modifier m => simp at hkey
  · exact .inr rfl

theorem ReadsPath.ne_nil {text rest : Text} {segments : List Segment}
    (h : ReadsPath text segments rest) : segments ≠ [] := by
  cases h <;> simp

/-- The key of a member without one needs no quotes. -/
theorem Reads.isBareKey_implicitKey {text rest : Text} {value : Expression}
    (h : Reads (.expression value) text rest) (htext : '\\' ∉ text) :
    (implicitKey value).isBareKey = true := by
  have hnone : Text.isBareKey ['_'] = true := by decide +kernel
  cases h with
  | expression hfirst _ =>
    cases hfirst with
    | @path _ _ _ _ segments hstart _ hsegments =>
      have hsuffix := suffix_of_skipBlanks hstart
      have hliteral := hsegments.isLiteral fun hmem => htext (hsuffix.subset hmem)
      rcases implicitKey_path rfl with hkey | hkey
      · exact (hliteral _ hkey).isBareKey
      · rwa [hkey]
    | object _ _ => exact hnone
    | array _ _ => exact hnone

/-- A key that stands before a colon needs no quotes, if it has none. -/
theorem isBareKey_of_memberKey {text rest key : Text} (htext : '"' ∉ text)
    (h : memberKey text = .ok (some key, rest)) : key.isBareKey = true := by
  rcases memberKey_cases h with ⟨tail, quoted, after, rfl, -⟩ | ⟨hnone, -⟩ |
    ⟨raw, rfl, hfree, hne, hat, -, hkey⟩
  · exact absurd (List.mem_cons_self ..) htext
  · exact absurd hnone (by simp)
  · rw [Option.some.injEq] at hkey
    subst hkey
    have hsub : ∀ c ∈ raw.trim, c ∈ raw := fun c hc => (Text.trimBoth_sublist isBlank raw).subset hc
    refine Text.isBareKey_iff.2 ⟨hne, Text.trim_trim raw, hat, fun hquote => htext ?_, ?_⟩
    · exact List.mem_append_left _ (hsub '"' (List.mem_of_mem_head? hquote))
    · exact fun c hc => hfree c (hsub c hc)

/-- No key of a member needs quotes. -/
theorem Reads.isBareKey_getD {text next rest : Text} {key : Option Text} {value : Expression}
    (h : Reads (.expression value) next rest) (htext : text.IsUnescaped)
    (hkey : memberKey text = .ok (key, next)) :
    (key.getD (implicitKey value)).isBareKey = true := by
  cases key with
  | none => exact h.isBareKey_implicitKey (htext.of_suffix (memberKey_suffix hkey)).1
  | some key => exact isBareKey_of_memberKey htext.2 hkey

/-! ## The text of a phrase -/

/-- The text of a phrase. -/
def Phrase.text : Phrase → Text
  | .expression stages => Expression.text stages
  | .pipeline stages => (Stage.texts stages).flatMap ('|' :: ·)
  | .stage s => s.text
  | .members list => Text.join [','] (Stage.memberTexts list) ++ ['}']
  | .items list => Text.join [','] (Stage.itemTexts list) ++ [']']

section

variable {value : Expression}
  (hvalue : Spelling (.expression value) (Phrase.text (.expression value)))

include hvalue

theorem spelling_members_cons {key : Text} {others : List (Text × Expression)}
    (hkey : key.isBareKey = true)
    (hothers : Spelling (.members others) (Phrase.text (.members others))) :
    Spelling (.members ((key, value) :: others))
      (Phrase.text (.members ((key, value) :: others))) := by
  have hkeySpelling := @KeySpelling.bare key [] [] rfl hkey rfl
  -- There is no trailing comma in the text, so the last member has a rule of its own.
  cases others with
  | nil =>
    have hlast := Spelling.lastMember hkeySpelling hvalue
    simpa [Phrase.text, Stage.memberTexts, Expression.text] using hlast
  | cons next others =>
    have hnext := Spelling.nextMember hkeySpelling hvalue hothers
    simpa [Phrase.text, Stage.memberTexts, Expression.text, Text.join_cons] using hnext

theorem spelling_items_cons {others : List Expression}
    (hothers : Spelling (.items others) (Phrase.text (.items others))) :
    Spelling (.items (value :: others)) (Phrase.text (.items (value :: others))) := by
  cases others with
  | nil =>
    have hlast := Spelling.lastItem hvalue
    simpa [Phrase.text, Stage.itemTexts, Expression.text] using hlast
  | cons next others =>
    have hnext := Spelling.nextItem hvalue hothers
    simpa [Phrase.text, Stage.itemTexts, Expression.text, Text.join_cons] using hnext

end

/-- What is read from a text without backslashes and quotes is spelled by its own text. -/
theorem Reads.spelling_text {phrase : Phrase} {text rest : Text} (h : Reads phrase text rest)
    (htext : text.IsUnescaped) : Spelling phrase phrase.text := by
  induction h with
  | @expression text middle rest first others hfirst _ ihFirst ihOthers =>
    have hspelling := Spelling.expression (ihFirst htext)
      (ihOthers (htext.of_suffix hfirst.passes.1))
    simpa [Phrase.text, Expression.text, Stage.texts, Text.join_cons_eq_flatMap] using hspelling
  | done _ => exact .done rfl
  | @bar text next middle rest first others hbar hfirst _ ihFirst ihOthers =>
    have hnext := htext.of_suffix (passes_of_skipBlanks hbar).1
    have hspelling := @Spelling.bar [] _ _ _ _ rfl (ihFirst hnext)
      (ihOthers (hnext.of_suffix hfirst.passes.1))
    simpa [Phrase.text, Stage.texts] using hspelling
  | @path text next rest c segments hstart _ hsegments =>
    have hstart := htext.of_suffix (suffix_of_skipBlanks hstart)
    have hliteral := hsegments.isLiteral hstart.1
    have htexts : List.Forall₂ Segment.Spelling segments (segments.map Segment.text) :=
      List.forall₂_map_right_iff.2 (List.forall₂_same.2 fun s hs => (hliteral s hs).spelling)
    have hspelling := @Spelling.path [] _ _ rfl hsegments.ne_nil htexts
    simpa [Phrase.text, Stage.text] using hspelling
  | object hstart _ ih =>
    have hmembers := ih (htext.of_suffix (passes_of_skipBlanks hstart).1)
    have hspelling := @Spelling.object [] _ _ rfl hmembers
    simpa [Phrase.text, Stage.text] using hspelling
  | array hstart _ ih =>
    have hitems := ih (htext.of_suffix (passes_of_skipBlanks hstart).1)
    have hspelling := @Spelling.array [] _ _ rfl hitems
    simpa [Phrase.text, Stage.text] using hspelling
  | noMember _ => exact @Spelling.noMember [] rfl
  | lastMember hstart _ hkey hvalue _ ih =>
    have hstart := htext.of_suffix (suffix_of_skipBlanks hstart)
    have hnext := hstart.of_suffix (memberKey_suffix hkey)
    exact spelling_members_cons (ih hnext) (hvalue.isBareKey_getD hstart hkey)
      (@Spelling.noMember [] rfl)
  | nextMember hstart _ hkey hvalue hcomma _ ihValue ihOthers =>
    have hstart := htext.of_suffix (suffix_of_skipBlanks hstart)
    have hnext := hstart.of_suffix (memberKey_suffix hkey)
    have hmore := hnext.of_suffix (hvalue.passes.trans (passes_of_skipBlanks hcomma)).1
    exact spelling_members_cons (ihValue hnext) (hvalue.isBareKey_getD hstart hkey) (ihOthers hmore)
  | noItem _ => exact @Spelling.noItem [] rfl
  | lastItem hstart _ _ _ ih =>
    exact spelling_items_cons (ih (htext.of_suffix (suffix_of_skipBlanks hstart)))
      (@Spelling.noItem [] rfl)
  | nextItem hstart _ hitem hcomma _ ihItem ihOthers =>
    have hstart := htext.of_suffix (suffix_of_skipBlanks hstart)
    have hmore := hstart.of_suffix (hitem.passes.trans (passes_of_skipBlanks hcomma)).1
    exact spelling_items_cons (ihItem hstart) (ihOthers hmore)

/-- The text of an expression that was read without backslashes and quotes reads as the
same expression. -/
theorem parse_text_of_parse {text : Text} {e : Expression} (hescape : '\\' ∉ text)
    (hquote : '"' ∉ text) (h : parse text = .ok e) : parse e.text = .ok e := by
  obtain ⟨rest, hreads, -⟩ := parse_eq_ok_iff.1 h
  exact (hreads.spelling_text ⟨hescape, hquote⟩).parse_eq

/-- A member without a key, a key with a blank in it, `@groupPlus` with an argument and
without one, and trailing commas. -/
def looseText : Text :=
  "\x7b a.b , given name: c.#.d |@groupPlus, w:[@groupPlus:03,\x7b\x7d,],\x7d ".toList

theorem parse_text_of_parse_loose :
    ('\\' ∉ looseText ∧ '"' ∉ looseText) ∧ ∃ e, parse looseText = .ok e ∧
      e.text = "\x7bb:a.b,given name:c.#.d|@groupPlus:0,w:[@groupPlus:3,\x7b\x7d]\x7d".toList ∧
      parse e.text = .ok e := by
  have hescape : '\\' ∉ looseText := by decide +kernel
  have hquote : '"' ∉ looseText := by decide +kernel
  have htext : (parse looseText).toOption.map Expression.text =
      some "\x7bb:a.b,given name:c.#.d|@groupPlus:0,w:[@groupPlus:3,\x7b\x7d]\x7d".toList := by
    decide +kernel
  obtain ⟨e, hsome, htext⟩ := Option.map_eq_some_iff.1 htext
  have hparse : parse looseText = .ok e := by
    cases h : parse looseText with
    | error fault => simp [h, Except.toOption] at hsome
    | ok e' => simpa [h, Except.toOption] using hsome
  exact ⟨⟨hescape, hquote⟩, e, hparse, htext, parse_text_of_parse hescape hquote hparse⟩

end Projection

end Reshape
