import Reshape.Proofs.PlainPath

/-!
# Reading what is written

The reader of expressions, on texts that are put together from plain pieces
without any blanks.  `Path.steps?` says which segments a dotted path stands for,
without the reader; the lemmas below show that the reader agrees, and that it
stops where the piece ends.

There are three groups.

* Segments.  `Segment.ofText?` gives the meaning of one segment: a plain key,
  `#`, or a modifier with its argument.  `segment_append` and `path_append` say
  that the reader finds the same segments.
* Stages.  `RendersStage` holds of a text and a stage if the reader gets the
  stage from the text, whatever follows.
* Expressions.  `Renders` is the same for pipelines.  `Renders.parse_eq` is what
  the proofs about compiled rules use.
-/

namespace Reshape

/-! ## Segments -/

/-- The segment that a piece of a dotted path stands for: `#`, a plain key, or a
modifier with its argument behind a colon. -/
def Segment.ofText? : Text → Option Segment
  | '@' :: rest =>
      match Text.cutAt? [':'] rest with
      | none => (Modifier.ofName? rest none).map .modifier
      | some (name, digits) =>
          (Text.word? digits).bind fun levels =>
            (Modifier.ofName? name (some levels)).map .modifier
  | text =>
      if text = Path.each then some .each
      else if text.isPlain then some (.key text)
      else none

/-- The segments that a dotted path stands for, if it is made of plain keys, `#`
and modifiers. -/
def Path.steps? (path : Path) : Option (List Segment) :=
  (segments path).mapM Segment.ofText?

/-- A path that stands for segments. -/
def Path.IsReadable (path : Path) : Prop :=
  (steps? path).isSome = true

instance (path : Path) : Decidable path.IsReadable :=
  inferInstanceAs (Decidable (_ = _))

namespace Text

theorem cutAt?_eq_some {c : Char} {text before behind : Text}
    (h : cutAt? [c] text = some (before, behind)) : text = before ++ c :: behind := by
  induction text generalizing before behind with
  | nil => simp [cutAt?] at h
  | cons d rest ih =>
    rw [cutAt?] at h
    by_cases hd : c = d
    · subst hd
      simp [after?, List.isPrefixOf?] at h
      simp [← h.1, ← h.2]
    · simp [after?, List.isPrefixOf?, hd] at h
      obtain ⟨head, hcut, rfl⟩ := h
      simp [ih hcut]

theorem cutAt?_append {c : Char} {before : Text} (h : c ∉ before) (behind : Text) :
    cutAt? [c] (before ++ c :: behind) = some (before, behind) := by
  induction before with
  | nil => simp [cutAt?, after?, List.isPrefixOf?]
  | cons d before ih =>
    have hd : c ≠ d := fun he => h (by simp [he])
    have hrest : c ∉ before := fun hm => h (by simp [hm])
    simp [cutAt?, after?, List.isPrefixOf?, hd, ih hrest]

theorem cutAt?_of_notMem {c : Char} {text : Text} (h : c ∉ text) : cutAt? [c] text = none := by
  by_contra hsome
  obtain ⟨⟨before, behind⟩, hcut⟩ := Option.ne_none_iff_exists'.1 hsome
  rw [cutAt?_eq_some hcut] at h
  exact h (by simp)

/-- A text that is one segment of a path wherever it stands: it has no dots, and no `@` that
might begin a type. -/
def IsSegment (text : Text) : Prop :=
  '.' ∉ text ∧ '@' ∉ text

theorem isSegment_of_isPlain {text : Text} (h : text.isPlain = true) : text.IsSegment :=
  ⟨notMem_of_isPlain h (by decide), notMem_of_isPlain h (by decide)⟩

theorem ne_nil_and_isSegment {text : Text} (h : text.isPlain = true) :
    text ≠ [] ∧ text.IsSegment :=
  ⟨ne_nil_of_isPlain h, isSegment_of_isPlain h⟩

@[simp] theorem skipBlanks_nil : skipBlanks [] = [] := rfl

theorem skipBlanks_cons {c : Char} {rest : Text} (h : isBlank c = false) :
    skipBlanks (c :: rest) = c :: rest := by
  simp [skipBlanks, trimStart, h]

theorem isDigit_of_mem_ofNat {n : Nat} {c : Char} (h : c ∈ ofNat n) : c.isDigit = true :=
  Nat.isDigit_of_mem_toDigits (by decide) (by decide) h

theorem ofNat_ne_nil (n : Nat) : ofNat n ≠ [] :=
  Nat.toDigits_ne_nil

@[simp] theorem digitsValue_ofNat (n : Nat) : digitsValue (ofNat n) = n :=
  Nat.ofDigitChars_ten_toDigits

/-- The digits of a number below `2 ^ 64` read back as it. -/
theorem word?_ofNat {n : Nat} (h : n < 2 ^ 64) : word? (ofNat n) = some n := by
  have hdigits : (ofNat n).all Char.isDigit = true :=
    List.all_eq_true.2 fun _ hc => isDigit_of_mem_ofNat hc
  have hne : (ofNat n).isEmpty = false := by simp [ofNat_ne_nil]
  have hbound : n < Nat.pow 2 64 := h
  rw [word?, hdigits, hne, digitsValue_ofNat, if_neg (by decide), if_pos hbound]

end Text

namespace Projection

/-- Whether a text ends, or goes on with one of the given characters. -/
def Stops (chars : List Char) (rest : Text) : Prop :=
  ∀ c ∈ rest.head?, c ∈ chars

@[simp] theorem stops_nil (chars : List Char) : Stops chars [] := by
  simp [Stops]

@[simp] theorem stops_cons {chars : List Char} {c : Char} {rest : Text} :
    Stops chars (c :: rest) ↔ c ∈ chars := by
  simp [Stops]

theorem Stops.mono {chars more : List Char} {rest : Text} (h : Stops chars rest)
    (hsub : chars ⊆ more) : Stops more rest :=
  fun c hc => hsub (h c hc)

/-- The characters behind a stage. -/
def stageEnds : List Char := ['|', ',', '}', ']']

/-- The characters behind an expression. -/
def expressionEnds : List Char := [',', '}', ']']

/-- A key ends where a character ends it that may not stand in a key. -/
theorem scanKey_append {key rest : Text}
    (hkey : ∀ c ∈ key, c ≠ '\\' ∧ endsKey c = false)
    (hrest : ∀ c ∈ rest.head?, endsKey c = true) : scanKey (key ++ rest) = (key, rest) := by
  induction key with
  | nil =>
    cases rest with
    | nil => rfl
    | cons c rest =>
      have hc : endsKey c = true := hrest c (by simp)
      have hne : c ≠ '\\' := by
        rintro rfl
        revert hc
        decide
      rw [List.nil_append, scanKey.eq_4 c rest (by simp [hne]) (by simp [hne]), if_pos hc]
  | cons c key ih =>
    obtain ⟨hne, hc⟩ := hkey c (by simp)
    have hrec := ih fun d hd => hkey d (by simp [hd])
    rw [List.cons_append, scanKey.eq_4 c (key ++ rest) (by simp [hne]) (by simp [hne])]
    simp [hc, hrec]

/-- The characters behind a segment. -/
def segmentEnds : List Char := '.' :: stageEnds

theorem endsKey_of_mem_segmentEnds {c : Char} (h : c ∈ segmentEnds) :
    endsKey c = true ∧ c ≠ ':' := by
  simp only [segmentEnds, stageEnds, List.mem_cons, List.not_mem_nil, or_false] at h
  rcases h with rfl | rfl | rfl | rfl | rfl <;> decide

theorem span_append {p : Char → Bool} {head rest : Text} (hhead : head.all p = true)
    (hrest : ∀ c ∈ rest.head?, p c = false) : (head ++ rest).span p = (head, rest) := by
  rw [List.span_eq_takeWhile_dropWhile]
  induction head with
  | nil =>
    cases rest with
    | nil => rfl
    | cons c rest => simp [hrest c (by simp)]
  | cons c head ih =>
    simp only [List.all_cons, Bool.and_eq_true] at hhead
    have hrec := ih hhead.2
    simp only [Prod.mk.injEq] at hrec
    simp [hhead.1, hrec.1, hrec.2]

theorem all_isNameChar_of_ofName? {name : Text} {argument : Option Nat} {m : Modifier}
    (h : Modifier.ofName? name argument = some m) : name.all isNameChar = true := by
  unfold Modifier.ofName? at h
  split at h
  · rename_i hname
    rw [hname]
    decide
  · split at h
    · simp at h
    · have hm := List.mem_of_find?_eq_some h
      have hname : m.name = name := by simpa using List.find?_some h
      rw [← hname]
      simp only [Modifier.plain, List.mem_cons, List.not_mem_nil, or_false] at hm
      rcases hm with rfl | rfl | rfl | rfl | rfl | rfl <;> decide

theorem all_isDigit_of_word? {digits : Text} {n : Nat} (h : Text.word? digits = some n) :
    digits.all Char.isDigit = true := by
  unfold Text.word? at h
  split at h
  · simp at h
  · rename_i hd
    simp only [Bool.or_eq_true, Bool.not_eq_true', not_or, Bool.not_eq_false] at hd
    exact hd.2

theorem isNameChar_of_endsKey {c : Char} (h : endsKey c = true) : isNameChar c = false := by
  by_contra hname
  have hplain : Text.isPlainChar c = true := by
    simp only [Bool.not_eq_false, isNameChar, Bool.or_eq_true] at hname
    simp only [Text.isPlainChar, Bool.or_eq_true]
    exact .inl hname
  rw [Text.endsKey_of_isPlainChar hplain] at h
  exact absurd h (by decide)

/-- The reader finds the modifier that an `@` and a piece of a path stand for. -/
theorem modifier_append {piece rest : Text} {s : Segment} (start : Text)
    (h : Segment.ofText? ('@' :: piece) = some s)
    (hrest : ∀ c ∈ rest.head?, endsKey c = true ∧ c ≠ ':') :
    modifier start (piece ++ rest) = .ok (s, rest) := by
  have hname : ∀ c ∈ rest.head?, isNameChar c = false :=
    fun c hc => isNameChar_of_endsKey (hrest c hc).1
  have hdigit : ∀ c ∈ rest.head?, c.isDigit = false := by
    intro c hc
    have := hname c hc
    simp only [isNameChar, Char.isAlphanum, Bool.or_eq_false_iff] at this
    exact this.1.2
  simp only [Segment.ofText?] at h
  cases hcut : Text.cutAt? [':'] piece with
  | none =>
    simp only [hcut, Option.map_eq_some_iff] at h
    obtain ⟨m, hm, rfl⟩ := h
    rw [modifier, span_append (all_isNameChar_of_ofName? hm) hname]
    cases rest with
    | nil => simp [hm]
    | cons c rest =>
      have hcolon : c ≠ ':' := (hrest c (by simp)).2
      simp [hm, hcolon]
  | some cut =>
    obtain ⟨name, digits⟩ := cut
    simp only [hcut, Option.bind_eq_some_iff, Option.map_eq_some_iff] at h
    obtain ⟨levels, hlevels, m, hm, rfl⟩ := h
    have hpiece : piece ++ rest = name ++ ':' :: (digits ++ rest) := by
      rw [Text.cutAt?_eq_some hcut, List.append_assoc, List.cons_append]
    have hcolon : ∀ c ∈ (':' :: (digits ++ rest)).head?, isNameChar c = false := by
      simp only [List.head?_cons, Option.mem_def, Option.some.injEq]
      rintro c rfl
      decide
    rw [modifier, hpiece, span_append (all_isNameChar_of_ofName? hm) hcolon]
    simp only
    rw [span_append (all_isDigit_of_word? hlevels) hdigit]
    simp [hlevels, hm]

/-- A segment that is not a modifier is written with characters of keys. -/
theorem ofText?_of_isPlain {key : Text} (h : key.isPlain = true) :
    Segment.ofText? key = some (.key key) := by
  have hat : '@' ∉ key := Text.notMem_of_isPlain h (by decide)
  rw [Segment.ofText?]
  · rw [if_neg (Path.ne_each_of_isPlain h), if_pos h]
  · rintro rest rfl
    exact hat (by simp)

theorem mapM_ofText? {keys : List Text} {f : Text → Segment}
    (h : ∀ key ∈ keys, Segment.ofText? key = some (f key)) :
    keys.mapM Segment.ofText? = some (keys.map f) := by
  induction keys with
  | nil => rfl
  | cons key keys ih =>
    rw [List.mapM_cons, h key (by simp), ih fun k hk => h k (by simp [hk])]
    rfl

/-- The modifier that takes an argument. -/
theorem ofText?_groupPlus {digits : Text} {levels : Nat} (h : Text.word? digits = some levels) :
    Segment.ofText? ("@groupPlus:".toList ++ digits) = some (.modifier (.groupPlus levels)) := by
  have hcut : Text.cutAt? [':'] ("groupPlus".toList ++ ':' :: digits) =
      some ("groupPlus".toList, digits) :=
    Text.cutAt?_append (by decide) _
  show Segment.ofText? ('@' :: ("groupPlus".toList ++ ':' :: digits)) = _
  rw [Segment.ofText?, hcut]
  simp [h, Modifier.ofName?]

theorem ofText?_cases {text : Text} {s : Segment} (h : Segment.ofText? text = some s) :
    (∃ piece, text = '@' :: piece) ∨ text = Path.each ∧ s = .each ∨
      text.isPlain = true ∧ s = .key text := by
  unfold Segment.ofText? at h
  split at h
  · exact .inl ⟨_, rfl⟩
  · split at h
    · rename_i heach
      exact .inr (.inl ⟨heach, by simpa using h.symm⟩)
    · split at h
      · rename_i hplain
        exact .inr (.inr ⟨hplain, by simpa using h.symm⟩)
      · simp at h

/-- The reader finds the segment that a piece of a path stands for. -/
theorem segment_append {text rest : Text} {s : Segment} (h : Segment.ofText? text = some s)
    (hrest : Stops segmentEnds rest) : segment (text ++ rest) = .ok (s, rest) := by
  have hends : ∀ c ∈ rest.head?, endsKey c = true :=
    fun c hc => (endsKey_of_mem_segmentEnds (hrest c hc)).1
  rcases ofText?_cases h with ⟨piece, rfl⟩ | ⟨rfl, rfl⟩ | ⟨hplain, rfl⟩
  · exact modifier_append ('@' :: (piece ++ rest)) h
      fun c hc => endsKey_of_mem_segmentEnds (hrest c hc)
  · have hscan : scanKey (Path.each ++ rest) = (Path.each, rest) :=
      scanKey_append (by simp [Path.each]; decide) hends
    unfold segment
    simp only [Path.each, List.cons_append, List.nil_append] at hscan ⊢
    simp [hscan]
  · have hscan : scanKey (text ++ rest) = (text, rest) := by
      refine scanKey_append (fun c hc => ?_) hends
      have hc' := Text.isPlainChar_of_mem hplain hc
      exact ⟨Text.isPlainChar_ne hc' (by decide), Text.endsKey_of_isPlainChar hc'⟩
    cases text with
    | nil => exact absurd rfl (Text.ne_nil_of_isPlain hplain)
    | cons c text =>
      have hc := (Text.isPlain_cons hplain).1
      have hat : c ≠ '@' := Text.isPlainChar_ne hc (by decide)
      have heach : c ≠ '#' := Text.isPlainChar_ne hc (by decide)
      unfold segment
      simp only [List.cons_append] at hscan ⊢
      simp [hscan, hat, heach]

theorem path_ofSegments {pieces : List Text} {steps : List Segment} {rest : Text}
    (hrest : Stops stageEnds rest) (hne : pieces ≠ [])
    (h : pieces.mapM Segment.ofText? = some steps) :
    ∀ fuel, (Path.ofSegments pieces).length < fuel →
      path fuel (Path.ofSegments pieces ++ rest) = .ok (steps, rest) := by
  induction pieces generalizing steps with
  | nil => exact absurd rfl hne
  | cons piece pieces ih =>
    simp only [List.mapM_cons, Option.pure_def, Option.bind_eq_bind, Option.bind_eq_some_iff,
      Option.some.injEq] at h
    obtain ⟨step, hstep, others, hothers, rfl⟩ := h
    intro fuel hfuel
    obtain ⟨fuel, rfl⟩ : ∃ n, fuel = n + 1 := ⟨fuel - 1, by omega⟩
    by_cases hp : pieces = []
    · subst hp
      have hread := segment_append hstep (hrest.mono (List.subset_cons_self _ _))
      simp only [List.mapM_nil, Option.pure_def, Option.some.injEq] at hothers
      subst hothers
      simp only [Path.ofSegments, Text.join_singleton]
      rw [path, hread]
      cases rest with
      | nil => rfl
      | cons c rest =>
        have hc : c ≠ '.' := by
          rintro rfl
          have := stops_cons.1 hrest
          revert this
          decide
        simp [bind, Except.bind, pure, Except.pure, hc]
    · have hstop : Stops segmentEnds ('.' :: (Path.ofSegments pieces ++ rest)) := by
        rw [stops_cons]
        decide
      have hread := segment_append hstep hstop
      rw [Path.ofSegments_cons piece hp] at hfuel ⊢
      rw [List.length_append, List.length_cons] at hfuel
      have hrec := ih hp hothers fuel (by omega)
      rw [List.append_assoc, List.cons_append, path, hread]
      simp [bind, Except.bind, pure, Except.pure, hrec]

/-- The reader finds the segments that a dotted path stands for. -/
theorem path_append {text rest : Text} {steps : List Segment} (h : Path.steps? text = some steps)
    (hrest : Stops stageEnds rest) (fuel : Nat) (hfuel : text.length < fuel) :
    path fuel (text ++ rest) = .ok (steps, rest) := by
  have hread := path_ofSegments hrest (Path.segments_ne_nil text) h fuel
  rw [Path.ofSegments_segments] at hread
  exact hread hfuel

/-- A dotted path starts with a character that starts no literal. -/
theorem head_of_steps? {text : Text} {steps : List Segment} (h : Path.steps? text = some steps) :
    ∃ c rest, text = c :: rest ∧ isBlank c = false ∧ isDelimiter c = false := by
  obtain ⟨first, pieces, hsegments⟩ := List.exists_cons_of_ne_nil (Path.segments_ne_nil text)
  have hfirst : ∃ s, Segment.ofText? first = some s := by
    simp only [Path.steps?, hsegments, List.mapM_cons, Option.pure_def, Option.bind_eq_bind,
      Option.bind_eq_some_iff] at h
    exact ⟨_, h.choose_spec.1⟩
  obtain ⟨s, hs⟩ := hfirst
  have hhead : ∃ c rest, first = c :: rest ∧ isBlank c = false ∧ isDelimiter c = false := by
    rcases ofText?_cases hs with ⟨piece, rfl⟩ | ⟨rfl, -⟩ | ⟨hplain, -⟩
    · exact ⟨'@', piece, rfl, by decide, by decide⟩
    · exact ⟨'#', [], rfl, by decide, by decide⟩
    · cases first with
      | nil => exact absurd rfl (Text.ne_nil_of_isPlain hplain)
      | cons c rest =>
        have hc := (Text.isPlain_cons hplain).1
        exact ⟨c, rest, rfl, Text.isBlank_of_isPlainChar hc, Text.isDelimiter_of_isPlainChar hc⟩
  obtain ⟨c, rest, rfl, hblank, hdelimiter⟩ := hhead
  rw [← Path.ofSegments_segments text, hsegments]
  by_cases hp : pieces = []
  · subst hp
    exact ⟨c, rest, rfl, hblank, hdelimiter⟩
  · rw [Path.ofSegments_cons _ hp]
    exact ⟨c, rest ++ '.' :: Path.ofSegments pieces, rfl, hblank, hdelimiter⟩

/-- The pieces of a path hold no delimiter. -/
theorem isDelimiter_of_mem_ofText? {text : Text} {s : Segment}
    (h : Segment.ofText? text = some s) {c : Char} (hc : c ∈ text) : isDelimiter c = false := by
  have hname : ∀ d, isNameChar d = true → isDelimiter d = false := by
    intro d hd
    apply Text.isDelimiter_of_isPlainChar
    simp only [isNameChar, Bool.or_eq_true] at hd
    simp only [Text.isPlainChar, Bool.or_eq_true]
    exact .inl hd
  have hdigit : ∀ d : Char, d.isDigit = true → isDelimiter d = false := by
    intro d hd
    apply hname
    simp [isNameChar, Char.isAlphanum, hd]
  rcases ofText?_cases h with ⟨piece, rfl⟩ | ⟨rfl, -⟩ | ⟨hplain, -⟩
  · simp only [Segment.ofText?] at h
    rw [List.mem_cons] at hc
    rcases hc with rfl | hc
    · decide
    cases hcut : Text.cutAt? [':'] piece with
    | none =>
      simp only [hcut, Option.map_eq_some_iff] at h
      obtain ⟨m, hm, -⟩ := h
      exact hname c (List.all_eq_true.1 (all_isNameChar_of_ofName? hm) c hc)
    | some cut =>
      obtain ⟨name, digits⟩ := cut
      simp only [hcut, Option.bind_eq_some_iff, Option.map_eq_some_iff] at h
      obtain ⟨levels, hlevels, m, hm, -⟩ := h
      rw [Text.cutAt?_eq_some hcut, List.mem_append, List.mem_cons] at hc
      rcases hc with hc | rfl | hc
      · exact hname c (List.all_eq_true.1 (all_isNameChar_of_ofName? hm) c hc)
      · decide
      · exact hdigit c (List.all_eq_true.1 (all_isDigit_of_word? hlevels) c hc)
  · simp only [Path.each, List.mem_singleton] at hc
    subst hc
    decide
  · exact Text.isDelimiter_of_isPlainChar (Text.isPlainChar_of_mem hplain hc)

theorem mem_mapM_ofText? {pieces : List Text} {steps : List Segment}
    (h : pieces.mapM Segment.ofText? = some steps) {piece : Text} (hp : piece ∈ pieces) :
    ∃ s, Segment.ofText? piece = some s := by
  induction pieces generalizing steps with
  | nil => simp at hp
  | cons first pieces ih =>
    simp only [List.mapM_cons, Option.pure_def, Option.bind_eq_bind, Option.bind_eq_some_iff] at h
    obtain ⟨s, hs, others, hothers, -⟩ := h
    rw [List.mem_cons] at hp
    rcases hp with rfl | hp
    · exact ⟨s, hs⟩
    · exact ih hothers hp

theorem isDelimiter_of_mem_steps? {text : Text} {steps : List Segment}
    (h : Path.steps? text = some steps) {c : Char} (hc : c ∈ text) : isDelimiter c = false := by
  rcases Path.mem_segments_of_mem hc with rfl | ⟨piece, hpiece, hmem⟩
  · decide
  · obtain ⟨s, hs⟩ := mem_mapM_ofText? h hpiece
    exact isDelimiter_of_mem_ofText? hs hmem

end Projection

namespace Text

/-- Pieces with a separator between them are the first piece and then the others,
each with the separator before it. -/
theorem join_cons_eq_flatMap (c : Char) (piece : Text) (pieces : List Text) :
    join [c] (piece :: pieces) = piece ++ pieces.flatMap (c :: ·) := by
  induction pieces generalizing piece with
  | nil => simp
  | cons next pieces ih =>
    rw [join_cons _ (by simp), ih next]
    simp

end Text

namespace Projection

/-! ## Stages -/

/-- The reader gets the stage from the text, up to where the text ends. -/
def RendersStage (text : Text) (s : Stage) : Prop :=
  ∀ fuel rest, 3 * text.length + 1 ≤ fuel → Stops stageEnds rest →
    stage fuel (text ++ rest) = .ok (s, rest)

/-- A dotted path is a stage. -/
theorem RendersStage.path {text : Text} {steps : List Segment}
    (h : Path.steps? text = some steps) : RendersStage text (.path steps) := by
  intro fuel rest hfuel hrest
  obtain ⟨fuel, rfl⟩ : ∃ n, fuel = n + 1 := ⟨fuel - 1, by omega⟩
  have hread := path_append h hrest fuel
  obtain ⟨c, tail, rfl, hblank, hdelimiter⟩ := head_of_steps? h
  have hne : c ≠ '{' ∧ c ≠ '[' := by
    constructor <;> rintro rfl <;> revert hdelimiter <;> decide
  have hlength : (c :: tail).length < fuel := by
    simp only [List.length_cons] at hfuel ⊢
    omega
  rw [stage.eq_def]
  simp only [List.cons_append] at hread ⊢
  simp [Text.skipBlanks_cons hblank, hne, hdelimiter, hread hlength, bind, Except.bind, pure,
    Except.pure]

/-! ## Expressions -/

/-- The text is the texts of the stages, with bars between them. -/
def Renders (text : Text) (expression : Expression) : Prop :=
  ∃ texts, texts ≠ [] ∧ text = Text.join ['|'] texts ∧ List.Forall₂ RendersStage texts expression

theorem RendersStage.renders {text : Text} {s : Stage} (h : RendersStage text s) :
    Renders text [s] :=
  ⟨[text], by simp, rfl, .cons h .nil⟩

/-- A stage may be added behind an expression. -/
theorem Renders.pipe {text more : Text} {expression : Expression} {s : Stage}
    (h : Renders text expression) (hs : RendersStage more s) :
    Renders (text ++ '|' :: more) (expression ++ [s]) := by
  obtain ⟨texts, hne, rfl, hall⟩ := h
  refine ⟨texts ++ [more], by simp, ?_, List.rel_append hall (.cons hs .nil)⟩
  obtain ⟨first, others, rfl⟩ := List.exists_cons_of_ne_nil hne
  simp [Text.join_cons_eq_flatMap]

theorem isBlank_of_mem_stageEnds {c : Char} (h : c ∈ stageEnds) : isBlank c = false := by
  simp only [stageEnds, List.mem_cons, List.not_mem_nil, or_false] at h
  rcases h with rfl | rfl | rfl | rfl <;> decide

theorem skipBlanks_of_stops {rest : Text} (h : Stops stageEnds rest) : rest.skipBlanks = rest := by
  cases rest with
  | nil => rfl
  | cons c rest => exact Text.skipBlanks_cons (isBlank_of_mem_stageEnds (stops_cons.1 h))

theorem Stops.stageEnds {rest : Text} (h : Stops expressionEnds rest) : Stops stageEnds rest :=
  h.mono (List.subset_cons_self _ _)

/-- The reader finds the stages behind the first. -/
theorem pipeline_append {texts : List Text} {stages : List Stage} {rest : Text}
    (h : List.Forall₂ RendersStage texts stages) (hrest : Stops expressionEnds rest) :
    ∀ fuel, 3 * (texts.flatMap ('|' :: ·)).length + 1 ≤ fuel →
      pipeline fuel (texts.flatMap ('|' :: ·) ++ rest) = .ok (stages, rest) := by
  induction h with
  | nil =>
    intro fuel hfuel
    obtain ⟨fuel, rfl⟩ : ∃ n, fuel = n + 1 := ⟨fuel - 1, by omega⟩
    rw [pipeline.eq_def]
    simp only [List.flatMap_nil, List.nil_append, skipBlanks_of_stops hrest.stageEnds]
    cases rest with
    | nil => rfl
    | cons c rest =>
      have hc : c ≠ '|' := by
        rintro rfl
        have := stops_cons.1 hrest
        revert this
        decide
      simp [hc, pure, Except.pure]
  | @cons text s texts stages hs _ ih =>
    intro fuel hfuel
    obtain ⟨fuel, rfl⟩ : ∃ n, fuel = n + 1 := ⟨fuel - 1, by omega⟩
    simp only [List.flatMap_cons, List.length_append, List.length_cons] at hfuel
    have hstop : Stops stageEnds (texts.flatMap ('|' :: ·) ++ rest) := by
      cases texts with
      | nil => simpa using hrest.stageEnds
      | cons next texts => simp [stageEnds]
    have hfirst := hs fuel _ (by omega) hstop
    have hothers := ih fuel (by omega)
    rw [pipeline.eq_def]
    simp only [List.flatMap_cons, List.cons_append, List.append_assoc,
      Text.skipBlanks_cons (show isBlank '|' = false by decide)]
    simp [hfirst, hothers, bind, Except.bind, pure, Except.pure]

/-- The reader gets the expression from the text, up to where the text ends. -/
theorem Renders.reads {text : Text} {e : Expression} (h : Renders text e) (fuel : Nat)
    (rest : Text) (hfuel : 3 * text.length + 2 ≤ fuel) (hrest : Stops expressionEnds rest) :
    expression fuel (text ++ rest) = .ok (e, rest) := by
  obtain ⟨texts, hne, rfl, hall⟩ := h
  cases hall with
  | nil => exact absurd rfl hne
  | @cons first s texts stages hs hothers =>
    obtain ⟨fuel, rfl⟩ : ∃ n, fuel = n + 1 := ⟨fuel - 1, by omega⟩
    rw [Text.join_cons_eq_flatMap] at hfuel ⊢
    rw [List.length_append] at hfuel
    have hstop : Stops stageEnds (texts.flatMap ('|' :: ·) ++ rest) := by
      cases texts with
      | nil => simpa using hrest.stageEnds
      | cons next texts => simp [stageEnds]
    have hfirst := hs fuel _ (by omega) hstop
    have hpipeline := pipeline_append hothers hrest fuel (by omega)
    rw [expression.eq_def]
    simp only [List.append_assoc]
    simp [hfirst, hpipeline, bind, Except.bind, pure, Except.pure]

/-! ## Object literals -/

/-- The text is a plain key, a colon and the text of the value. -/
def RendersMember (text : Text) (member : Text × Expression) : Prop :=
  ∃ value, text = member.1 ++ ':' :: value ∧ member.1.isPlain = true ∧ Renders value member.2

theorem scanBareKey?_append {raw : Text} (h : ∀ c ∈ raw, c ≠ ':' ∧ endsBareKey c = false)
    (rest : Text) : scanBareKey? (raw ++ ':' :: rest) = some (raw, rest) := by
  induction raw with
  | nil => simp [scanBareKey?]
  | cons c raw ih =>
    obtain ⟨hcolon, hends⟩ := h c (by simp)
    simp [scanBareKey?, hcolon, hends, ih fun d hd => h d (by simp [hd])]

/-- The reader finds a key without quotes and its colon. -/
theorem memberKey_bare {raw : Text} (h : ∀ c ∈ raw, c ≠ ':' ∧ endsBareKey c = false)
    (hne : raw.trim ≠ []) (hat : raw.trim.head? ≠ some '@') (hquote : raw.head? ≠ some '"')
    (rest : Text) : memberKey (raw ++ ':' :: rest) = .ok (some raw.trim, rest) := by
  have hscan := scanBareKey?_append h rest
  cases raw with
  | nil => exact absurd rfl hne
  | cons c raw =>
    have hc : c ≠ '"' := fun heq => hquote (by rw [heq, List.head?_cons])
    unfold memberKey
    simp only [List.cons_append] at hscan ⊢
    simp [hc, hscan, hne, hat]

/-- Nothing is trimmed off a plain key. -/
theorem trim_of_isPlain {key : Text} (h : key.isPlain = true) : key.trim = key := by
  have hblank : ∀ c ∈ key, isBlank c = false :=
    fun c hc => Text.isBlank_of_isPlainChar (Text.isPlainChar_of_mem h hc)
  have hdrop : ∀ text : Text, (∀ c ∈ text, isBlank c = false) → text.dropWhile isBlank = text := by
    intro text htext
    cases text with
    | nil => rfl
    | cons c text => simp [htext c (by simp)]
  rw [Text.trim, Text.trimBoth, Text.trimStart, Text.trimEnd, hdrop key hblank,
    hdrop key.reverse (fun c hc => hblank c (by simpa using hc)), List.reverse_reverse]

/-- The reader finds a plain key and its colon. -/
theorem memberKey_append {key : Text} (h : key.isPlain = true) (rest : Text) :
    memberKey (key ++ ':' :: rest) = .ok (some key, rest) := by
  have hhead : ∀ d, Text.isPlainChar d = false → key.head? ≠ some d := by
    intro d hd hhead
    exact Text.notMem_of_isPlain h hd (List.mem_of_mem_head? hhead)
  have hfree : ∀ c ∈ key, c ≠ ':' ∧ endsBareKey c = false := by
    intro c hc
    have hplain := Text.isPlainChar_of_mem h hc
    have hdot : c ≠ '.' := Text.isPlainChar_ne hplain (by decide)
    refine ⟨Text.isPlainChar_ne hplain (by decide), ?_⟩
    simp [endsBareKey, Text.isDelimiter_of_isPlainChar hplain, hdot]
  have hread := memberKey_bare hfree (by rw [trim_of_isPlain h]; exact Text.ne_nil_of_isPlain h)
    (by rw [trim_of_isPlain h]; exact hhead '@' (by decide)) (hhead '"' (by decide)) rest
  rwa [trim_of_isPlain h] at hread

/-- The reader finds the members of an object literal. -/
theorem members_append {texts : List Text} {list : List (Text × Expression)}
    (h : List.Forall₂ RendersMember texts list) (opened rest : Text) :
    ∀ fuel, 3 * (Text.join [','] texts).length + 1 ≤ fuel →
      members fuel opened (Text.join [','] texts ++ '}' :: rest) = .ok (list, rest) := by
  induction h with
  | nil =>
    intro fuel hfuel
    obtain ⟨fuel, rfl⟩ : ∃ n, fuel = n + 1 := ⟨fuel - 1, by omega⟩
    rw [members.eq_def]
    simp [Text.skipBlanks_cons (show isBlank '}' = false by decide), pure, Except.pure]
  | @cons text member texts list hmember hothers ih =>
    intro fuel hfuel
    obtain ⟨fuel, rfl⟩ : ∃ n, fuel = n + 1 := ⟨fuel - 1, by omega⟩
    obtain ⟨key, value⟩ := member
    obtain ⟨valueText, rfl, hkey, hvalue⟩ := hmember
    -- What follows the first member: the end of the literal, or a comma and the others.
    obtain ⟨tail, htail, hstop, hlength, hnext⟩ : ∃ tail,
        Text.join [','] ((key ++ ':' :: valueText) :: texts) ++ '}' :: rest =
          key ++ ':' :: (valueText ++ tail) ∧ Stops expressionEnds tail ∧
        3 * valueText.length + 2 ≤ fuel ∧
        ((tail = '}' :: rest ∧ list = []) ∨
          ∃ more, tail = ',' :: more ∧ members fuel opened more = .ok (list, rest)) := by
      cases hothers with
      | nil =>
        simp only [Text.join_singleton, List.length_append, List.length_cons] at hfuel
        exact ⟨'}' :: rest, by simp, by simp [expressionEnds], by omega, .inl ⟨rfl, rfl⟩⟩
      | @cons next member texts list _ _ =>
        rw [Text.join_cons _ (by simp)] at hfuel ⊢
        simp only [List.length_append, List.length_cons, List.length_nil] at hfuel
        exact ⟨',' :: (Text.join [','] (next :: texts) ++ '}' :: rest), by simp,
          by simp [expressionEnds], by omega, .inr ⟨_, rfl, ih fuel (by omega)⟩⟩
    have hread := hvalue.reads fuel tail hlength hstop
    have hmemberKey := memberKey_append hkey (valueText ++ tail)
    have hblank : Text.skipBlanks tail = tail :=
      skipBlanks_of_stops hstop.stageEnds
    rw [htail, members.eq_def]
    cases key with
    | nil => exact absurd rfl (Text.ne_nil_of_isPlain hkey)
    | cons c key =>
      have hc := (Text.isPlain_cons hkey).1
      have hbrace : c ≠ '}' := Text.isPlainChar_ne hc (by decide)
      simp only [List.cons_append] at hmemberKey ⊢
      rw [Text.skipBlanks_cons (Text.isBlank_of_isPlainChar hc)]
      rcases hnext with ⟨rfl, rfl⟩ | ⟨more, rfl, hmore⟩
      · simp [hbrace, hmemberKey, hread, hblank, bind, Except.bind, pure, Except.pure]
      · simp [hbrace, hmemberKey, hread, hblank, hmore, bind, Except.bind, pure, Except.pure]

/-- Members with commas between them, in braces, are a stage. -/
theorem RendersStage.object {texts : List Text} {list : List (Text × Expression)}
    (h : List.Forall₂ RendersMember texts list) :
    RendersStage ('{' :: Text.join [','] texts ++ ['}']) (.object list) := by
  intro fuel rest hfuel _
  simp only [List.cons_append, List.length_cons, List.length_append, List.length_nil] at hfuel
  obtain ⟨fuel, rfl⟩ : ∃ n, fuel = n + 1 := ⟨fuel - 1, by omega⟩
  rw [stage.eq_def]
  simp only [List.cons_append, List.append_assoc, List.nil_append,
    Text.skipBlanks_cons (show isBlank '{' = false by decide)]
  simp [members_append h _ rest fuel (by omega), bind, Except.bind, pure, Except.pure]

/-- The text of a stage is not blank, since the reader gets no stage from a blank
text. -/
theorem RendersStage.isAllBlank_eq {text : Text} {s : Stage} (h : RendersStage text s) :
    text.isAllBlank = false := by
  by_contra hblank
  have hall : ∀ c ∈ text, isBlank c = true := by
    simpa [Text.isAllBlank] using hblank
  have hskip : text.skipBlanks = [] := List.dropWhile_eq_nil_iff.2 hall
  have hread := h (3 * text.length + 1) [] (by omega) (by simp)
  rw [List.append_nil, stage.eq_def] at hread
  simp [hskip] at hread

theorem Renders.isAllBlank_eq {text : Text} {e : Expression} (h : Renders text e) :
    text.isAllBlank = false := by
  obtain ⟨texts, hne, rfl, hall⟩ := h
  cases hall with
  | nil => exact absurd rfl hne
  | cons hs _ =>
    rw [Text.join_cons_eq_flatMap, Text.isAllBlank, List.all_append]
    have := hs.isAllBlank_eq
    rw [Text.isAllBlank] at this
    rw [this, Bool.false_and]

/-- A text that renders an expression reads as that expression. -/
theorem Renders.parse_eq {text : Text} {e : Expression} (h : Renders text e) :
    parse text = .ok e := by
  have hread := h.reads (3 * text.length + 2) [] (by omega) (by simp)
  rw [List.append_nil] at hread
  simp [parse, read, h.isAllBlank_eq, hread, bind, Except.bind, pure, Except.pure, Except.mapError]

/-- Asking for the value of a text that renders an expression. -/
theorem Renders.get_eq {text : Text} {e : Expression} (h : Renders text e) (maxDepth : Nat)
    (document : Document) : get maxDepth document text = evaluate maxDepth e document := by
  simp [get, h.isAllBlank_eq, h.parse_eq, bind, Except.bind]

end Projection

end Reshape
