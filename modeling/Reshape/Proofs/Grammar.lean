import Reshape.Proofs.Derivation

/-!
# The spellings of an expression

An expression can be written in many ways: with blanks around its parts, with more
escapes than its keys need, with keys in quotes or without, and with a comma behind
the last part of a literal.  `Projection.Spelling` holds of a tree and each of the
texts that stand for it.  It is defined by the characters alone, and mentions none of
the functions that read a text.

There are three groups.

* The grammar.  `Text.Escaped` is a key with its backslashes, `Segment.Spelling` a
  segment, `Projection.KeySpelling` the key of a member with its colon, and
  `Projection.Spelling` all that is nested.  Blanks belong to the part that they stand
  before, except that a pipeline has blanks at its end.
* The trees that have a spelling, `Expression.isWritable`.
* Reading.  `Spelling.reads` shows that the rules of `Reads` take a spelling apart
  into the tree it stands for, whatever follows it.
-/

namespace Reshape

/-! ## Keys and segments -/

namespace Text

/-- A key with a backslash before some of its characters, among them all special
ones. -/
inductive Escaped (special : Char → Bool) : Text → Text → Prop where
  | nil : Escaped special [] []
  | plain {c : Char} {key text : Text} (hc : special c = false) (hrest : Escaped special key text) :
      Escaped special (c :: key) (c :: text)
  | escape {c : Char} {key text : Text} (hrest : Escaped special key text) :
      Escaped special (c :: key) ('\\' :: c :: text)

/-- The characters that need a backslash in a key of a path. -/
def isSpecial (c : Char) : Bool :=
  isBlank c || c ∈ ['.', ':', '"', '\\', '|', ',', '{', '}', '[', ']']

/-- The characters that need a backslash between quotes. -/
def isQuoteSpecial (c : Char) : Bool :=
  c ∈ ['"', '\\']

/-- Whether a member may have a key without quotes around it. -/
def isBareKey (key : Text) : Bool :=
  !key.isEmpty && key.trim = key && key.head? ≠ some '@' && key.head? ≠ some '"' &&
    key.all fun c => c ∉ [':', ',', '.', '|', '{', '}', '[', ']']

end Text

/-- The texts of a modifier.  A number may have leading zeros, and `@groupPlus` alone
stands for zero levels. -/
inductive Modifier.Spelling : Modifier → Text → Prop where
  | plain {m : Modifier} (hm : m ∈ plain) : Spelling m ('@' :: m.name)
  | levels (zeros : Nat) {levels : Nat} (hlevels : levels < 2 ^ 64) :
      Spelling (.groupPlus levels)
        ("@groupPlus:".toList ++ (List.replicate zeros '0' ++ Text.ofNat levels))
  | noLevels : Spelling (.groupPlus 0) "@groupPlus".toList

/-- The texts of a segment.  A key does not start with an `@` unless a backslash stands
before it. -/
inductive Segment.Spelling : Segment → Text → Prop where
  | key {name text : Text} (hne : name ≠ []) (heach : name ≠ ['#'])
      (htext : Text.Escaped Text.isSpecial name text) (hat : text.head? ≠ some '@') :
      Spelling (.key name) text
  | each : Spelling .each ['#']
  | modifier {m : Modifier} {text : Text} (h : m.Spelling text) : Spelling (.modifier m) text

namespace Projection

/-- The texts of a key of a member, together with the blanks before it and the colon
behind it. -/
inductive KeySpelling (key : Text) : Text → Prop where
  | bare {before after : Text} (hbefore : before.isAllBlank = true)
      (hkey : key.isBareKey = true) (hafter : after.isAllBlank = true) :
      KeySpelling key (before ++ (key ++ (after ++ [':'])))
  | quoted {before text after : Text} (hbefore : before.isAllBlank = true)
      (htext : Text.Escaped Text.isQuoteSpecial key text) (hafter : after.isAllBlank = true) :
      KeySpelling key (before ++ '"' :: (text ++ '"' :: (after ++ [':'])))

/-- The texts of a phrase. -/
inductive Spelling : Phrase → Text → Prop where
  | expression {first : Stage} {others : List Stage} {text more : Text}
      (hfirst : Spelling (.stage first) text) (hothers : Spelling (.pipeline others) more) :
      Spelling (.expression (first :: others)) (text ++ more)
  | done {blanks : Text} (hblanks : blanks.isAllBlank = true) : Spelling (.pipeline []) blanks
  | bar {blanks : Text} {first : Stage} {others : List Stage} {text more : Text}
      (hblanks : blanks.isAllBlank = true) (hfirst : Spelling (.stage first) text)
      (hothers : Spelling (.pipeline others) more) :
      Spelling (.pipeline (first :: others)) (blanks ++ '|' :: (text ++ more))
  | path {blanks : Text} {segments : List Segment} {texts : List Text}
      (hblanks : blanks.isAllBlank = true) (hne : segments ≠ [])
      (htexts : List.Forall₂ Segment.Spelling segments texts) :
      Spelling (.stage (.path segments)) (blanks ++ Text.join ['.'] texts)
  | object {blanks : Text} {list : List (Text × Expression)} {text : Text}
      (hblanks : blanks.isAllBlank = true) (hmembers : Spelling (.members list) text) :
      Spelling (.stage (.object list)) (blanks ++ '{' :: text)
  | array {blanks : Text} {list : List Expression} {text : Text}
      (hblanks : blanks.isAllBlank = true) (hitems : Spelling (.items list) text) :
      Spelling (.stage (.array list)) (blanks ++ '[' :: text)
  | noMember {blanks : Text} (hblanks : blanks.isAllBlank = true) :
      Spelling (.members []) (blanks ++ ['}'])
  | lastMember {key keyText : Text} {value : Expression} {text : Text}
      (hkey : KeySpelling key keyText) (hvalue : Spelling (.expression value) text) :
      Spelling (.members [(key, value)]) (keyText ++ (text ++ ['}']))
  | nextMember {key keyText : Text} {value : Expression} {others : List (Text × Expression)}
      {text more : Text} (hkey : KeySpelling key keyText)
      (hvalue : Spelling (.expression value) text) (hothers : Spelling (.members others) more) :
      Spelling (.members ((key, value) :: others)) (keyText ++ (text ++ ',' :: more))
  | noItem {blanks : Text} (hblanks : blanks.isAllBlank = true) :
      Spelling (.items []) (blanks ++ [']'])
  | lastItem {item : Expression} {text : Text} (hitem : Spelling (.expression item) text) :
      Spelling (.items [item]) (text ++ [']'])
  | nextItem {item : Expression} {others : List Expression} {text more : Text}
      (hitem : Spelling (.expression item) text) (hothers : Spelling (.items others) more) :
      Spelling (.items (item :: others)) (text ++ ',' :: more)

end Projection

/-! ## The trees that have a spelling -/

/-- Whether a segment has a spelling: a key that reads `#` would be taken for all
items. -/
def Segment.isWritable : Segment → Bool
  | .key name => !name.isEmpty && name ≠ ['#']
  | .each => true
  | .modifier (.groupPlus levels) => levels < Nat.pow 2 64
  | .modifier _ => true

mutual

/-- Whether a stage has a spelling. -/
def Stage.isWritable : Stage → Bool
  | .path segments => !segments.isEmpty && segments.all Segment.isWritable
  | .object members => Stage.areMembersWritable members
  | .array items => Stage.areItemsWritable items

/-- Whether the stages of a pipeline have spellings. -/
def Stage.areWritable : List Stage → Bool
  | [] => true
  | stage :: rest => stage.isWritable && Stage.areWritable rest

/-- Whether the members of a literal have spellings. -/
def Stage.areMembersWritable : List (Text × List Stage) → Bool
  | [] => true
  | (_, value) :: rest =>
      !value.isEmpty && Stage.areWritable value && Stage.areMembersWritable rest

/-- Whether the items of a literal have spellings. -/
def Stage.areItemsWritable : List (List Stage) → Bool
  | [] => true
  | item :: rest => !item.isEmpty && Stage.areWritable item && Stage.areItemsWritable rest

end

/-- Whether an expression has a spelling: there are stages in every pipeline and
segments in every path, and all segments have spellings. -/
def Expression.isWritable (expression : Expression) : Bool :=
  !expression.isEmpty && Stage.areWritable expression

namespace Text.Escaped

/-- A backslash may stand before every character. -/
theorem all (special : Char → Bool) (key : Text) :
    Escaped special key (key.flatMap fun c => ['\\', c]) := by
  induction key with
  | nil => exact .nil
  | cons c key ih => exact .escape ih

/-- A key without special characters needs no backslash. -/
theorem refl {special : Char → Bool} {key : Text} (h : ∀ c ∈ key, special c = false) :
    Escaped special key key := by
  induction key with
  | nil => exact .nil
  | cons c key ih =>
    rw [List.forall_mem_cons] at h
    exact .plain h.1 (ih h.2)

end Text.Escaped

namespace Segment

theorem Spelling.isWritable {s : Segment} {text : Text} (h : s.Spelling text) :
    s.isWritable = true := by
  cases h with
  | key hne heach htext hat => simp [Segment.isWritable, hne, heach]
  | each => rfl
  | modifier h =>
    cases h with
    | plain hm =>
      simp only [Modifier.plain, List.mem_cons, List.not_mem_nil, or_false] at hm
      rcases hm with rfl | rfl | rfl | rfl | rfl | rfl <;> rfl
    | levels zeros hlevels =>
      have hbound : _ < Nat.pow 2 64 := hlevels
      simp [Segment.isWritable, hbound]
    | noLevels => decide

theorem exists_spelling {s : Segment} (h : s.isWritable = true) : ∃ text, s.Spelling text := by
  cases s with
  | key name =>
    simp only [Segment.isWritable, Bool.and_eq_true, Bool.not_eq_true', List.isEmpty_eq_false_iff,
      decide_eq_true_eq] at h
    refine ⟨_, .key h.1 h.2 (.all _ name) ?_⟩
    obtain ⟨c, rest, rfl⟩ := List.exists_cons_of_ne_nil h.1
    simp
  | each => exact ⟨_, .each⟩
  | modifier m =>
    by_cases hm : m ∈ Modifier.plain
    · exact ⟨_, .modifier (.plain hm)⟩
    · cases m with
      | groupPlus levels =>
        have hbound : levels < Nat.pow 2 64 := by simpa [Segment.isWritable] using h
        exact ⟨_, .modifier (.levels 0 hbound)⟩
      | _ => exact absurd hm (by decide)

theorem exists_spellings {segments : List Segment} (h : segments.all isWritable = true) :
    ∃ texts, List.Forall₂ Spelling segments texts := by
  induction segments with
  | nil => exact ⟨[], .nil⟩
  | cons s segments ih =>
    rw [List.all_cons, Bool.and_eq_true] at h
    obtain ⟨text, htext⟩ := exists_spelling h.1
    obtain ⟨texts, htexts⟩ := ih h.2
    exact ⟨text :: texts, .cons htext htexts⟩

end Segment

namespace Projection

/-- Whether a phrase has a spelling. -/
def Phrase.isWritable : Phrase → Bool
  | .expression stages => Expression.isWritable stages
  | .pipeline stages => Stage.areWritable stages
  | .stage s => s.isWritable
  | .members list => Stage.areMembersWritable list
  | .items list => Stage.areItemsWritable list

/-- What is spelled has a spelling. -/
theorem Spelling.isWritable {phrase : Phrase} {text : Text} (h : Spelling phrase text) :
    phrase.isWritable = true := by
  induction h with
  | expression _ _ ihFirst ihOthers =>
    simp only [Phrase.isWritable] at ihFirst ihOthers
    simp [Phrase.isWritable, Expression.isWritable, Stage.areWritable, ihFirst, ihOthers]
  | done _ => rfl
  | bar _ _ _ ihFirst ihOthers =>
    simp only [Phrase.isWritable] at ihFirst ihOthers
    simp [Phrase.isWritable, Stage.areWritable, ihFirst, ihOthers]
  | @path blanks segments texts _ hne htexts =>
    have hall : segments.all Segment.isWritable = true := by
      clear hne
      induction htexts with
      | nil => rfl
      | cons hs _ ih => rw [List.all_cons, hs.isWritable, ih, Bool.and_self]
    simp [Phrase.isWritable, Stage.isWritable, hne, hall]
  | object _ _ ih => exact ih
  | array _ _ ih => exact ih
  | noMember _ => rfl
  | lastMember _ _ ih =>
    simp only [Phrase.isWritable, Expression.isWritable] at ih
    simp [Phrase.isWritable, Stage.areMembersWritable, ih]
  | nextMember _ _ _ ihValue ihOthers =>
    simp only [Phrase.isWritable, Expression.isWritable] at ihValue ihOthers
    simp [Phrase.isWritable, Stage.areMembersWritable, ihValue, ihOthers]
  | noItem _ => rfl
  | lastItem _ ih =>
    simp only [Phrase.isWritable, Expression.isWritable] at ih
    simp [Phrase.isWritable, Stage.areItemsWritable, ih]
  | nextItem _ _ ihItem ihOthers =>
    simp only [Phrase.isWritable, Expression.isWritable] at ihItem ihOthers
    simp [Phrase.isWritable, Stage.areItemsWritable, ihItem, ihOthers]

theorem exists_keySpelling (key : Text) : ∃ text, KeySpelling key text :=
  ⟨_, @KeySpelling.quoted key [] _ [] rfl (.all _ key) rfl⟩

mutual

theorem exists_spelling_stage : ∀ s : Stage, s.isWritable = true →
    ∃ text, Spelling (.stage s) text
  | .path segments, h => by
    simp only [Stage.isWritable, Bool.and_eq_true, Bool.not_eq_true',
      List.isEmpty_eq_false_iff] at h
    obtain ⟨texts, htexts⟩ := Segment.exists_spellings h.2
    exact ⟨_, @Spelling.path [] _ _ rfl h.1 htexts⟩
  | .object members, h => by
    obtain ⟨text, htext⟩ := exists_spelling_members members h
    exact ⟨_, @Spelling.object [] _ _ rfl htext⟩
  | .array items, h => by
    obtain ⟨text, htext⟩ := exists_spelling_items items h
    exact ⟨_, @Spelling.array [] _ _ rfl htext⟩

theorem exists_spelling_pipeline : ∀ stages : List Stage, Stage.areWritable stages = true →
    ∃ text, Spelling (.pipeline stages) text
  | [], _ => ⟨[], .done rfl⟩
  | first :: others, h => by
    simp only [Stage.areWritable, Bool.and_eq_true] at h
    obtain ⟨text, htext⟩ := exists_spelling_stage first h.1
    obtain ⟨more, hmore⟩ := exists_spelling_pipeline others h.2
    exact ⟨_, @Spelling.bar [] _ _ _ _ rfl htext hmore⟩

theorem exists_spelling_members : ∀ list : List (Text × List Stage),
    Stage.areMembersWritable list = true → ∃ text, Spelling (.members list) text
  | [], _ => ⟨_, @Spelling.noMember [] rfl⟩
  | (_, []) :: _, h => by simp [Stage.areMembersWritable] at h
  | (key, first :: stages) :: others, h => by
    simp only [Stage.areMembersWritable, Stage.areWritable, Bool.and_eq_true] at h
    obtain ⟨keyText, hkey⟩ := exists_keySpelling key
    obtain ⟨text, htext⟩ := exists_spelling_stage first h.1.2.1
    obtain ⟨more, hmore⟩ := exists_spelling_pipeline stages h.1.2.2
    obtain ⟨rest, hrest⟩ := exists_spelling_members others h.2
    exact ⟨_, .nextMember hkey (.expression htext hmore) hrest⟩

theorem exists_spelling_items : ∀ list : List (List Stage), Stage.areItemsWritable list = true →
    ∃ text, Spelling (.items list) text
  | [], _ => ⟨_, @Spelling.noItem [] rfl⟩
  | [] :: _, h => by simp [Stage.areItemsWritable] at h
  | (first :: stages) :: others, h => by
    simp only [Stage.areItemsWritable, Stage.areWritable, Bool.and_eq_true] at h
    obtain ⟨text, htext⟩ := exists_spelling_stage first h.1.2.1
    obtain ⟨more, hmore⟩ := exists_spelling_pipeline stages h.1.2.2
    obtain ⟨rest, hrest⟩ := exists_spelling_items others h.2
    exact ⟨_, .nextItem (.expression htext hmore) hrest⟩

end

theorem exists_spelling {e : Expression} (h : e.isWritable = true) :
    ∃ text, Spelling (.expression e) text := by
  cases e with
  | nil => exact absurd h (by decide)
  | cons first others =>
    simp only [Expression.isWritable, Stage.areWritable, Bool.and_eq_true] at h
    obtain ⟨text, htext⟩ := exists_spelling_stage first h.2.1
    obtain ⟨more, hmore⟩ := exists_spelling_pipeline others h.2.2
    exact ⟨_, .expression htext hmore⟩

end Projection

/-! ## Reading -/

namespace Text

theorem digitsValue_zeros_append (zeros : Nat) (digits : Text) :
    digitsValue (List.replicate zeros '0' ++ digits) = digitsValue digits := by
  induction zeros with
  | zero => rfl
  | succ zeros ih => exact ih

/-- Leading zeros do not change a number. -/
theorem word?_zeros_append (zeros : Nat) {n : Nat} (h : n < 2 ^ 64) :
    word? (List.replicate zeros '0' ++ ofNat n) = some n := by
  have hword := word?_ofNat h
  have hdigits := Projection.all_isDigit_of_word? hword
  have hne := ofNat_ne_nil n
  have hzeros : (List.replicate zeros '0').all Char.isDigit = true := by
    rw [List.all_replicate]
    split <;> rfl
  rw [word?] at hword ⊢
  rw [digitsValue_zeros_append, List.all_append, hzeros, Bool.true_and]
  simpa [hne] using hword

/-- Blanks before a character are skipped, whatever stands behind it. -/
theorem skipBlanks_append_cons {blanks : Text} {c : Char} (hblanks : blanks.isAllBlank = true)
    (hc : isBlank c = false) (text rest : Text) :
    skipBlanks (blanks ++ c :: text ++ rest) = c :: (text ++ rest) := by
  rw [List.append_assoc, skipBlanks_append hblanks, List.cons_append, skipBlanks_cons hc]

theorem isSpecial_eq_false_iff {c : Char} :
    isSpecial c = false ↔ c ≠ '\\' ∧ Projection.endsKey c = false := by
  simp only [isSpecial, Projection.endsKey, Projection.isDelimiter, Bool.or_eq_false_iff,
    decide_eq_false_iff_not, List.mem_cons, List.not_mem_nil, or_false, not_or, beq_eq_false_iff_ne]
  tauto

theorem isBareKey_iff {key : Text} :
    key.isBareKey = true ↔ key ≠ [] ∧ key.trim = key ∧ key.head? ≠ some '@' ∧
      key.head? ≠ some '"' ∧ ∀ c ∈ key, c ≠ ':' ∧ Projection.endsBareKey c = false := by
  have hfree : ∀ c : Char, c ∉ [':', ',', '.', '|', '{', '}', '[', ']'] ↔
      c ≠ ':' ∧ Projection.endsBareKey c = false := by
    intro c
    simp only [Projection.endsBareKey, Projection.isDelimiter, Bool.or_eq_false_iff,
      List.mem_cons, List.not_mem_nil, or_false, not_or, beq_eq_false_iff_ne]
    tauto
  simp only [isBareKey, Bool.and_eq_true, Bool.not_eq_true', List.isEmpty_eq_false_iff,
    decide_eq_true_eq, List.all_eq_true, hfree, and_assoc]

end Text

/-- A text of a modifier is an `@` and a piece that stands for the modifier. -/
theorem Modifier.Spelling.ofText? {m : Modifier} {text : Text} (h : m.Spelling text) :
    ∃ piece, text = '@' :: piece ∧ Segment.ofText? text = some (.modifier m) := by
  cases h with
  | plain hm =>
    refine ⟨m.name, rfl, ?_⟩
    simp only [Modifier.plain, List.mem_cons, List.not_mem_nil, or_false] at hm
    rcases hm with rfl | rfl | rfl | rfl | rfl | rfl <;> decide
  | @levels zeros levels hlevels =>
    refine ⟨"groupPlus".toList ++ ':' :: (List.replicate zeros '0' ++ Text.ofNat levels), rfl, ?_⟩
    exact Projection.ofText?_groupPlus (Text.word?_zeros_append zeros hlevels)
  | noLevels => exact ⟨"groupPlus".toList, rfl, by decide⟩

namespace Projection

theorem scanKey_escaped {key text rest : Text} (h : Text.Escaped Text.isSpecial key text)
    (hrest : ∀ c ∈ rest.head?, endsKey c = true) : scanKey (text ++ rest) = (key, rest) := by
  induction h with
  | nil => exact @scanKey_append [] rest (by simp) hrest
  | @plain c key text hc _ ih =>
    obtain ⟨hne, hends⟩ := Text.isSpecial_eq_false_iff.1 hc
    rw [List.cons_append, scanKey.eq_4 c (text ++ rest) (by simp [hne]) (by simp [hne])]
    simp [hends, ih]
  | escape _ ih => simp [scanKey, ih]

theorem scanQuoted?_escaped {key text : Text} (h : Text.Escaped Text.isQuoteSpecial key text)
    (rest : Text) : scanQuoted? (text ++ '"' :: rest) = some (key, rest) := by
  induction h with
  | nil => rfl
  | @plain c key text hc _ ih =>
    have hne : c ≠ '"' ∧ c ≠ '\\' := by simpa [Text.isQuoteSpecial] using hc
    rw [List.cons_append, scanQuoted?.eq_5 c (text ++ '"' :: rest) (by simp [hne]) (by simp [hne])
      (by simp [hne]), ih]
    rfl
  | escape _ ih => simp [scanQuoted?, ih]

theorem ne_of_isBlank {c d : Char} (hc : isBlank c = true) (hd : isBlank d = false) : c ≠ d := by
  rintro rfl
  rw [hc] at hd
  exact absurd hd (by decide)

/-- Blanks may stand in a key without quotes. -/
theorem endsBareKey_of_isBlank {c : Char} (h : isBlank c = true) :
    c ≠ ':' ∧ endsBareKey c = false := by
  refine ⟨ne_of_isBlank h (by decide), ?_⟩
  simp only [endsBareKey, isDelimiter, Bool.or_eq_false_iff, beq_eq_false_iff_ne, and_assoc]
  exact ⟨ne_of_isBlank h (by decide), ne_of_isBlank h (by decide), ne_of_isBlank h (by decide),
    ne_of_isBlank h (by decide), ne_of_isBlank h (by decide), ne_of_isBlank h (by decide),
    ne_of_isBlank h (by decide)⟩

/-- The reader finds a key, however it is spelled, and is left with what stands behind
its colon. -/
theorem KeySpelling.reads {key text : Text} (h : KeySpelling key text) (rest : Text) :
    ∃ c tail, (text ++ rest).skipBlanks = c :: tail ∧ c ≠ '}' ∧
      memberKey (c :: tail) = .ok (some key, rest) := by
  cases h with
  | @bare before after hbefore hkey hafter =>
    obtain ⟨hne, htrim, hat, hquote, hfree⟩ := Text.isBareKey_iff.1 hkey
    have hhead : ∀ c ∈ key.head?, isBlank c = false := by
      rw [← htrim]
      exact Text.head?_trimBoth
    have hlast : ∀ c ∈ key.getLast?, isBlank c = false := by
      rw [← htrim]
      exact Text.getLast?_trimBoth
    have hraw := Text.trim_append_blanks hne hhead hlast hafter
    have hfree' : ∀ c ∈ key ++ after, c ≠ ':' ∧ endsBareKey c = false := by
      rw [List.forall_mem_append]
      exact ⟨hfree, fun c hc => endsBareKey_of_isBlank (Text.isBlank_of_mem hafter hc)⟩
    have hread := memberKey_bare hfree' (by rwa [hraw]) (by rwa [hraw])
      (by rwa [List.head?_append_of_ne_nil key hne]) rest
    rw [hraw] at hread
    obtain ⟨c, tail, rfl⟩ := List.exists_cons_of_ne_nil hne
    refine ⟨c, tail ++ (after ++ ':' :: rest), ?_, ?_, ?_⟩
    · simp only [List.append_assoc, List.cons_append, List.nil_append]
      rw [Text.skipBlanks_append hbefore, Text.skipBlanks_cons (hhead c (by simp))]
    · rintro rfl
      exact absurd (hfree '}' (by simp)).2 (by decide)
    · simpa using hread
  | @quoted before text after hbefore htext hafter =>
    refine ⟨'"', text ++ '"' :: (after ++ ':' :: rest), ?_, by decide, ?_⟩
    · simp only [List.append_assoc, List.cons_append, List.nil_append]
      rw [Text.skipBlanks_append hbefore, Text.skipBlanks_cons (by decide)]
    · have hcolon : (after ++ ':' :: rest).skipBlanks = ':' :: rest := by
        rw [Text.skipBlanks_append hafter, Text.skipBlanks_cons (by decide)]
      simp [memberKey, scanQuoted?_escaped htext, hcolon]

end Projection

/-- The reader gets the segment from the text, whatever ends the segment behind it. -/
def Segment.IsReadFrom (s : Segment) (text : Text) : Prop :=
  ∀ rest, (∀ c ∈ rest.head?, Projection.endsKey c = true ∧ c ≠ ':') →
    Projection.segment (text ++ rest) = .ok (s, rest)

namespace Segment.Spelling

open Projection

variable {s : Segment} {text : Text}

/-- A segment starts with a character that is neither blank nor a delimiter. -/
theorem exists_cons (h : s.Spelling text) :
    ∃ c tail, text = c :: tail ∧ isBlank c = false ∧ isDelimiter c = false := by
  cases h with
  | key hne heach htext hat =>
    cases htext with
    | nil => exact absurd rfl hne
    | @plain c key text hc _ =>
      have hends := (Text.isSpecial_eq_false_iff.1 hc).2
      simp only [endsKey, Bool.or_eq_false_iff] at hends
      exact ⟨c, text, rfl, hends.1.2, hends.2⟩
    | @escape c key text _ => exact ⟨'\\', c :: text, rfl, by decide, by decide⟩
  | each => exact ⟨'#', [], rfl, by decide, by decide⟩
  | modifier hm =>
    obtain ⟨piece, rfl, -⟩ := hm.ofText?
    exact ⟨'@', piece, rfl, by decide, by decide⟩

/-- The reader finds a segment, however it is spelled. -/
theorem isReadFrom (h : s.Spelling text) : s.IsReadFrom text := by
  intro rest hrest
  have hends : ∀ c ∈ rest.head?, endsKey c = true := fun c hc => (hrest c hc).1
  cases h with
  | @key name text hne heach htext hat =>
    have hscan := scanKey_escaped htext hends
    obtain ⟨c, tail, rfl, -⟩ := exists_cons (.key hne heach htext hat)
    have hc : c ≠ '@' := fun heq => hat (by rw [heq, List.head?_cons])
    unfold Projection.segment
    simp only [List.cons_append] at hscan ⊢
    simp [hscan, hc, hne, heach]
  | each =>
    have hscan : scanKey (['#'] ++ rest) = (['#'], rest) :=
      scanKey_append (by simp; decide) hends
    unfold Projection.segment
    simp only [List.cons_append, List.nil_append] at hscan ⊢
    simp [hscan]
  | modifier hm =>
    obtain ⟨piece, rfl, hof⟩ := hm.ofText?
    exact modifier_append ('@' :: (piece ++ rest)) hof hrest

end Segment.Spelling

namespace Projection

/-- Whether a stage may end before a text: the text is empty, or starts with a blank or
a delimiter. -/
def EndsStage (rest : Text) : Prop :=
  ∀ c ∈ rest.head?, isBlank c = true ∨ isDelimiter c = true

theorem EndsStage.endsKey {rest : Text} (h : EndsStage rest) :
    ∀ c ∈ rest.head?, endsKey c = true ∧ c ≠ ':' ∧ c ≠ '.' := by
  intro c hc
  rcases h c hc with hblank | hdelimiter
  · refine ⟨by simp [Projection.endsKey, hblank], ?_⟩
    exact ⟨ne_of_isBlank hblank (by decide), ne_of_isBlank hblank (by decide)⟩
  · refine ⟨by simp [Projection.endsKey, hdelimiter], ?_⟩
    constructor <;> rintro rfl <;> exact absurd hdelimiter (by decide)

theorem EndsStage.of_stops {rest : Text} (h : Stops expressionEnds rest) : EndsStage rest := by
  intro c hc
  have hmem := h c hc
  simp only [expressionEnds, List.mem_cons, List.not_mem_nil, or_false] at hmem
  rcases hmem with rfl | rfl | rfl <;> decide

theorem EndsStage.append {blanks rest : Text} (hblanks : blanks.isAllBlank = true)
    (h : EndsStage rest) : EndsStage (blanks ++ rest) := by
  cases blanks with
  | nil => exact h
  | cons c blanks =>
    intro d hd
    rw [List.cons_append, List.head?_cons, Option.mem_some_iff] at hd
    exact .inl (Text.isBlank_of_mem hblanks (by simp [hd]))

/-- A stage may end before the other stages of a pipeline. -/
theorem Spelling.endsStage {others : List Stage} {more rest : Text}
    (h : Spelling (.pipeline others) more) (hrest : Stops expressionEnds rest) :
    EndsStage (more ++ rest) := by
  cases h with
  | done hblanks => exact .append hblanks (.of_stops hrest)
  | bar hblanks _ _ =>
    rw [List.append_assoc]
    refine .append hblanks fun c hc => .inr ?_
    rw [List.cons_append, List.head?_cons, Option.mem_some_iff] at hc
    rw [← hc]
    decide

/-- The rules read a path segment by segment. -/
theorem readsPath_join {segments : List Segment} {texts : List Text} {rest : Text}
    (h : List.Forall₂ Segment.IsReadFrom segments texts) (hne : segments ≠ [])
    (hrest : EndsStage rest) : ReadsPath (Text.join ['.'] texts ++ rest) segments rest := by
  induction h with
  | nil => exact absurd rfl hne
  | @cons s text segments texts hs hothers ih =>
    by_cases hsegments : segments = []
    · subst hsegments
      cases hothers
      rw [Text.join_singleton]
      refine .last (hs rest fun c hc => ?_) fun hdot => ?_
      · exact ⟨(hrest.endsKey c hc).1, (hrest.endsKey c hc).2.1⟩
      · exact absurd rfl (hrest.endsKey '.' hdot).2.2
    · have htexts : texts ≠ [] := by
        rintro rfl
        exact hsegments (List.forall₂_nil_right_iff.1 hothers)
      rw [Text.join_cons _ htexts, List.append_assoc, List.append_assoc]
      refine .dot (hs _ fun c hc => ?_) (ih hsegments)
      rw [List.cons_append, List.head?_cons, Option.mem_some_iff] at hc
      rw [← hc]
      decide

/-- A path starts with a character that is neither blank nor a delimiter. -/
theorem exists_cons_of_spelling {segments : List Segment} {texts : List Text}
    (h : List.Forall₂ Segment.Spelling segments texts) (hne : segments ≠ []) :
    ∃ c tail, Text.join ['.'] texts = c :: tail ∧ isBlank c = false ∧ isDelimiter c = false := by
  cases h with
  | nil => exact absurd rfl hne
  | cons hs _ =>
    obtain ⟨c, tail, rfl, hblank, hplain⟩ := hs.exists_cons
    rw [Text.join_cons_eq_flatMap, List.cons_append]
    exact ⟨c, _, rfl, hblank, hplain⟩

/-- Blanks before an expression change nothing, and the character behind them starts a
stage. -/
theorem Reads.skipBlanks {e : Expression} {text rest : Text}
    (h : Reads (.expression e) text rest) :
    ∃ c tail, text.skipBlanks = c :: tail ∧ c ≠ ']' ∧ Reads (.expression e) (c :: tail) rest := by
  have hskip : text.skipBlanks.skipBlanks = text.skipBlanks :=
    List.dropWhile_idempotent isBlank text
  cases h with
  | expression hfirst hothers =>
    cases hfirst with
    | @path _ next _ c _ hstart hplain hsegments =>
      rw [hstart] at hskip
      refine ⟨c, next, hstart, ?_, .expression (.path hskip hplain hsegments) hothers⟩
      rintro rfl
      exact absurd hplain (by decide)
    | @object _ next _ _ hstart hmembers =>
      rw [hstart] at hskip
      exact ⟨'{', next, hstart, by decide, .expression (.object hskip hmembers) hothers⟩
    | @array _ next _ _ hstart hitems =>
      rw [hstart] at hskip
      exact ⟨'[', next, hstart, by decide, .expression (.array hskip hitems) hothers⟩

/-- Whether a phrase may end before a text. -/
def Phrase.EndsBefore : Phrase → Text → Prop
  | .expression _, rest => Stops expressionEnds rest
  | .pipeline _, rest => Stops expressionEnds rest
  | .stage _, rest => EndsStage rest
  | .members _, _ => True
  | .items _, _ => True

/-- The rules read a phrase, however it is spelled. -/
theorem Spelling.reads {phrase : Phrase} {text : Text} (h : Spelling phrase text) :
    ∀ rest, phrase.EndsBefore rest → Reads phrase (text ++ rest) rest := by
  -- The text behind the phrase is free, because that of a part holds the parts behind it.
  induction h with
  | expression _ hothers ihFirst ihOthers =>
    intro rest hrest
    rw [List.append_assoc]
    exact .expression (ihFirst _ (hothers.endsStage hrest)) (ihOthers rest hrest)
  | @done blanks hblanks =>
    intro rest hrest
    have hskip : (blanks ++ rest).skipBlanks = rest := by
      rw [Text.skipBlanks_append hblanks, skipBlanks_of_stops (Stops.stageEnds hrest)]
    have hdone := @Reads.done (blanks ++ rest) fun hbar => by
      rw [hskip] at hbar
      exact absurd (hrest '|' hbar) (by decide)
    rwa [hskip] at hdone
  | bar hblanks _ hothers ihFirst ihOthers =>
    intro rest hrest
    refine .bar ?_ (ihFirst _ (hothers.endsStage hrest)) (ihOthers rest hrest)
    rw [Text.skipBlanks_append_cons hblanks (by decide), List.append_assoc]
  | path hblanks hne htexts =>
    intro rest hrest
    have hpath := readsPath_join (htexts.imp fun _ _ hs => hs.isReadFrom) hne hrest
    obtain ⟨c, tail, hjoin, hblank, hplain⟩ := exists_cons_of_spelling htexts hne
    rw [hjoin] at hpath ⊢
    exact .path (Text.skipBlanks_append_cons hblanks hblank tail rest) hplain hpath
  | object hblanks _ ih =>
    intro rest _
    exact .object (Text.skipBlanks_append_cons hblanks (by decide) _ rest) (ih rest trivial)
  | array hblanks _ ih =>
    intro rest _
    exact .array (Text.skipBlanks_append_cons hblanks (by decide) _ rest) (ih rest trivial)
  | noMember hblanks =>
    intro rest _
    exact .noMember (Text.skipBlanks_append_cons hblanks (by decide) [] rest)
  | @lastMember key keyText value text hkey _ ih =>
    intro rest _
    obtain ⟨c, tail, hstart, hopen, hread⟩ := hkey.reads (text ++ '}' :: rest)
    have hvalue := ih ('}' :: rest) (by simp [Phrase.EndsBefore, expressionEnds])
    rw [List.append_assoc, List.append_assoc]
    exact .lastMember hstart hopen hread hvalue (Text.skipBlanks_cons (by decide))
  | @nextMember key keyText value others text more hkey _ _ ihValue ihOthers =>
    intro rest _
    obtain ⟨c, tail, hstart, hopen, hread⟩ := hkey.reads (text ++ ',' :: (more ++ rest))
    have hvalue := ihValue (',' :: (more ++ rest)) (by simp [Phrase.EndsBefore, expressionEnds])
    rw [List.append_assoc, List.append_assoc]
    exact .nextMember hstart hopen hread hvalue (Text.skipBlanks_cons (by decide))
      (ihOthers rest trivial)
  | noItem hblanks =>
    intro rest _
    exact .noItem (Text.skipBlanks_append_cons hblanks (by decide) [] rest)
  | @lastItem item text _ ih =>
    intro rest _
    have hitem := ih (']' :: rest) (by simp [Phrase.EndsBefore, expressionEnds])
    -- The reader skips blanks before it looks for the end of the literal.
    obtain ⟨c, tail, hstart, hopen, hread⟩ := hitem.skipBlanks
    rw [List.append_assoc]
    exact .lastItem hstart hopen hread (Text.skipBlanks_cons (by decide))
  | @nextItem item others text more _ _ ihItem ihOthers =>
    intro rest _
    have hitem := ihItem (',' :: (more ++ rest)) (by simp [Phrase.EndsBefore, expressionEnds])
    obtain ⟨c, tail, hstart, hopen, hread⟩ := hitem.skipBlanks
    rw [List.append_assoc]
    exact .nextItem hstart hopen hread (Text.skipBlanks_cons (by decide)) (ihOthers rest trivial)

/-- A spelling reads as the expression it stands for. -/
theorem Spelling.parse_eq {e : Expression} {text : Text} (h : Spelling (.expression e) text) :
    parse text = .ok e := by
  have hreads := h.reads [] (by simp [Phrase.EndsBefore])
  rw [List.append_nil] at hreads
  exact parse_eq_ok_iff.2 ⟨[], hreads, rfl⟩

/-- Asking for the value of a spelling. -/
theorem Spelling.get_eq {e : Expression} {text : Text} (h : Spelling (.expression e) text)
    (maxDepth : Nat) (d : Document) : get maxDepth d text = evaluate maxDepth e d :=
  get_of_parse h.parse_eq maxDepth d

/-- The expressions that have a spelling are those with stages in every pipeline, segments
in every path, and segments that can be told apart; and all spellings of an expression
read as that expression. -/
theorem parse_spelling (e : Expression) :
    (e.isWritable = true ↔ ∃ text, Spelling (.expression e) text) ∧
      ∀ text, Spelling (.expression e) text → parse text = .ok e :=
  ⟨⟨exists_spelling, fun ⟨_, h⟩ => h.isWritable⟩, fun _ h => h.parse_eq⟩

/-- Blanks of several kinds, escapes that are needed and one that is not, a number with
leading zeros, keys of both kinds, empty literals and trailing commas. -/
def nestedText : Text :=
  "\t\x7b a b : x\\.\\y.@groupPlus:007 |[ ] , \"q\\\"\" :[#.\\@k ,\x7b\u2003\x7d,],\x7d\n| z".toList

def nestedTree : Expression :=
  [.object
    [("a b".toList, [.path [.key "x.y".toList, .modifier (.groupPlus 7)], .array []]),
      ("q\"".toList, [.array [[.path [.each, .key "@k".toList]], [.object []]]])],
    .path [.key "z".toList]]

theorem parse_spelling_nested :
    nestedTree.isWritable = true ∧ Spelling (.expression nestedTree) nestedText ∧
      parse nestedText = .ok nestedTree := by
  have hfirst := Spelling.expression
    (@Spelling.path [' '] _ ["x\\.\\y".toList, "@groupPlus:007".toList] rfl (by decide)
      (.cons (@Segment.Spelling.key "x.y".toList _ (by decide) (by decide)
        (.plain rfl (.escape (.escape .nil))) (by decide))
        (.cons (.modifier (@Modifier.Spelling.levels 2 7 (by decide))) .nil)))
    (@Spelling.bar [' '] _ _ _ _ rfl (@Spelling.array [] _ _ rfl (@Spelling.noItem [' '] rfl))
      (@Spelling.done [' '] rfl))
  have hitem := Spelling.expression
    (@Spelling.path [] _ [['#'], "\\@k".toList] rfl (by decide)
      (.cons .each (.cons (@Segment.Spelling.key "@k".toList _ (by decide) (by decide)
        (.escape (.plain rfl .nil)) (by decide)) .nil)))
    (@Spelling.done [' '] rfl)
  have hempty := Spelling.expression
    (@Spelling.object [] _ _ rfl (@Spelling.noMember ['\u2003'] rfl)) (@Spelling.done [] rfl)
  have hsecond := Spelling.expression
    (@Spelling.array [] _ _ rfl (.nextItem hitem (.nextItem hempty (@Spelling.noItem [] rfl))))
    (@Spelling.done [] rfl)
  have hkey := @KeySpelling.bare "a b".toList [' '] [' '] rfl (by decide +kernel) rfl
  have hquoted := @KeySpelling.quoted "q\"".toList [' '] "q\\\"".toList [' '] rfl
    (.plain rfl (.escape .nil)) rfl
  have hlast := @Spelling.path [' '] _ [['z']] rfl (by decide)
    (.cons (@Segment.Spelling.key ['z'] _ (by decide) (by decide) (.plain rfl .nil) (by decide))
      .nil)
  have h := Spelling.expression
    (@Spelling.object ['\t'] _ _ rfl
      (.nextMember hkey hfirst (.nextMember hquoted hsecond (@Spelling.noMember [] rfl))))
    (@Spelling.bar ['\n'] _ _ _ _ rfl hlast (@Spelling.done [] rfl))
  have hspelling : Spelling (.expression nestedTree) nestedText := by
    convert h using 1
    · rfl
    · decide +kernel
  exact ⟨(parse_spelling nestedTree).1.2 ⟨nestedText, hspelling⟩, hspelling,
    (parse_spelling nestedTree).2 nestedText hspelling⟩

end Projection

end Reshape
