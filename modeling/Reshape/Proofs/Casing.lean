import Reshape.Path.Casing
import Reshape.Proofs.Reading

/-!
# Casing of paths

Camel case takes the bars out of a name and raises the letters behind them, and snake case
finds the raised letters again.  A raised letter stands between small characters, so it is
neither part of an acronym nor next to another raised letter, and a bar is set before each of
them and nowhere else.

* Characters.  What the small letters, digits and capitals of ASCII are to the two casings.
* The three passes of snake case, over pieces in which they find nothing and what follows them:
  `breakAcronyms_append`, `breakWords_small_append` and `mergeSeparators_append`.
* Names.  `SnakeWord` is a word of a name, `snakeName` and `camelName` are the names of some
  words, and `camelSegment_snakeName` and `snakeSegment_camelName` lead from one to the other.
* Paths.  `mapSegments_mapSegments` makes one change of two, and `snakeCase_camelCase` is the
  result.
-/

namespace Reshape

/-! ## Characters -/

/-- The small letters and the digits of ASCII. -/
def isSmallChar (c : Char) : Bool :=
  c.isLower || c.isDigit

theorem isUpper_bounds {c : Char} (h : c.isUpper = true) : 65 ≤ c.toNat ∧ c.toNat ≤ 90 := by
  simpa [Char.isUpper, UInt32.le_iff_toNat_le, ← Char.toNat_val] using h

theorem isSmallChar_bounds {c : Char} (h : isSmallChar c = true) :
    48 ≤ c.toNat ∧ c.toNat ≤ 57 ∨ 97 ≤ c.toNat ∧ c.toNat ≤ 122 := by
  rw [isSmallChar, Bool.or_eq_true] at h
  rcases h with h | h
  · exact .inr (by simpa [Char.isLower, UInt32.le_iff_toNat_le, ← Char.toNat_val] using h)
  · exact .inl (Char.isDigit_iff_toNat.1 h)

theorem isUpper_of_isSmallChar {c : Char} (h : isSmallChar c = true) : c.isUpper = false := by
  have hsmall := isSmallChar_bounds h
  by_contra hupper
  have := isUpper_bounds (by simpa using hupper)
  omega

theorem isAlphanum_of_isSmallChar {c : Char} (h : isSmallChar c = true) : c.isAlphanum = true := by
  rw [isSmallChar, Bool.or_eq_true] at h
  rcases h with h | h <;> simp [Char.isAlphanum, Char.isAlpha, h]

theorem isUpper_toUpper {c : Char} (h : c.isLower = true) : c.toUpper.isUpper = true := by
  rw [Char.isUpper_toUpper_eq_isAlpha, Char.isAlpha, h, Bool.or_true]

theorem isAlphanum_toUpper {c : Char} (h : c.isLower = true) : c.toUpper.isAlphanum = true := by
  rw [Char.isAlphanum, Char.isAlpha, isUpper_toUpper h, Bool.true_or, Bool.true_or]

theorem toNat_lt_of_isAlphanum {c : Char} (h : c.isAlphanum = true) : c.toNat < 0x80 := by
  have := Text.isPlainChar_bounds (c := c) (by simp [Text.isPlainChar, h])
  omega

namespace Letter

theorem lower_of_ascii {c : Char} (h : c.toNat < 0x80) : lower c = [c.toLower] :=
  if_pos h

theorem upper_of_ascii {c : Char} (h : c.toNat < 0x80) : upper c = [c.toUpper] :=
  if_pos h

theorem lowerFrom_of_ascii {text : Text} (h : ∀ c ∈ text, c.toNat < 0x80) (before : Text) :
    lowerFrom before text = text.foldCase := by
  induction text generalizing before with
  | nil => rfl
  | cons c rest ih =>
    have hc := h c (by simp)
    have hsigma : c ≠ 'Σ' := by
      rintro rfl
      simp at hc
    rw [lowerFrom, if_neg hsigma, lower_of_ascii hc, ih fun d hd => h d (by simp [hd])]
    rfl

end Letter

/-- In ASCII each letter is lowered by itself. -/
theorem Text.lower_of_ascii {text : Text} (h : ∀ c ∈ text, c.toNat < 0x80) :
    text.lower = text.foldCase :=
  Letter.lowerFrom_of_ascii h []

namespace Path

theorem isSeparator_of_isAlphanum {c : Char} (h : c.isAlphanum = true) :
    isSeparator c = false := by
  have hblank : isBlank c = false := Text.isBlank_of_isPlainChar (by simp [Text.isPlainChar, h])
  have hbar : c ≠ '_' := by
    rintro rfl
    exact absurd h (by decide)
  have hdash : c ≠ '-' := by
    rintro rfl
    exact absurd h (by decide)
  simp [isSeparator, hbar, hdash, hblank]

/-! ## Words -/

/-- A word goes on up to the end or to the next separator. -/
theorem words_append {word rest : Text} (hne : word ≠ [])
    (hword : ∀ c ∈ word, isSeparator c = false) (hrest : ∀ c ∈ rest.head?, isSeparator c = true) :
    words (word ++ rest) = word :: words rest := by
  induction word with
  | nil => exact absurd rfl hne
  | cons c word ih =>
    have hc := hword c (by simp)
    cases word with
    | nil =>
      cases rest with
      | nil => simp [words, hc]
      | cons d rest => simp [words, hc, hrest d (by simp)]
    | cons next word =>
      have hnext := hword next (by simp)
      have hmore := ih (by simp) fun d hd => hword d (List.mem_cons_of_mem c hd)
      rw [List.cons_append] at hmore ⊢
      rw [List.cons_append, words, hc]
      simp [hnext, hmore]

theorem words_cons_separator {c : Char} (h : isSeparator c = true) (rest : Text) :
    words (c :: rest) = words rest := by
  cases rest <;> simp [words, h]

theorem words_join {list : List Text}
    (h : ∀ word ∈ list, word ≠ [] ∧ ∀ c ∈ word, isSeparator c = false) :
    words (Text.join ['_'] list) = list := by
  induction list with
  | nil => rfl
  | cons word list ih =>
    obtain ⟨hne, hword⟩ := h word (by simp)
    by_cases hlist : list = []
    · subst hlist
      have hlast : words (word ++ []) = [word] := words_append hne hword (by simp)
      rwa [List.append_nil] at hlast
    · have hbar : isSeparator '_' = true := by decide
      rw [Text.join_cons word hlist, List.append_assoc, List.singleton_append,
        words_append hne hword (by simpa using hbar), words_cons_separator hbar,
        ih fun w hw => h w (by simp [hw])]

/-! ## The passes of snake case -/

/-- One step of the search for acronyms. -/
theorem breakAcronyms_cons (inRun : Bool) (c : Char) (rest : Text) :
    breakAcronyms inRun (c :: rest) =
      if c.isUpper && inRun && rest.head?.any Char.isLower then
        '_' :: c :: breakAcronyms true rest
      else c :: breakAcronyms c.isUpper rest := by
  cases hc : c.isUpper with
  | false => cases rest <;> simp [breakAcronyms, hc]
  | true => cases rest <;> simp [breakAcronyms, hc]

theorem breakAcronyms_false_cons (c : Char) (rest : Text) :
    breakAcronyms false (c :: rest) = c :: breakAcronyms c.isUpper rest := by
  rw [breakAcronyms_cons, Bool.and_false, Bool.false_and, if_neg Bool.false_ne_true]

/-- Characters that are no capitals end a run of capitals. -/
theorem breakAcronyms_append {text : Text} (hne : text ≠ [])
    (h : ∀ c ∈ text, c.isUpper = false) (inRun : Bool) (rest : Text) :
    breakAcronyms inRun (text ++ rest) = text ++ breakAcronyms false rest := by
  induction text generalizing inRun with
  | nil => exact absurd rfl hne
  | cons c text ih =>
    rw [List.cons_append, breakAcronyms_cons, h c (by simp), Bool.false_and, Bool.false_and,
      if_neg Bool.false_ne_true, List.cons_append]
    by_cases htext : text = []
    · subst htext
      rfl
    · rw [ih htext fun d hd => h d (List.mem_cons_of_mem c hd)]

theorem breakWords_cons_cons {next : Char} (h : next.isUpper = false) (c : Char) (rest : Text) :
    breakWords (c :: next :: rest) = c :: breakWords (next :: rest) := by
  rw [breakWords, h, Bool.and_false, if_neg Bool.false_ne_true]

theorem breakWords_cons_eq_self {text : Text} (h : ∀ c ∈ text, c.isUpper = false) (c : Char) :
    breakWords (c :: text) = c :: text := by
  induction text generalizing c with
  | nil => rfl
  | cons next text ih =>
    rw [breakWords_cons_cons (h next (by simp)), ih fun d hd => h d (List.mem_cons_of_mem next hd)]

/-- A bar is set between small characters and a capital. -/
theorem breakWords_small_append {small : Text} (hne : small ≠ [])
    (h : ∀ c ∈ small, isSmallChar c = true) {capital : Char} (hcapital : capital.isUpper = true)
    (c : Char) (rest : Text) :
    breakWords (c :: (small ++ capital :: rest)) =
      c :: (small ++ '_' :: breakWords (capital :: rest)) := by
  induction small generalizing c with
  | nil => exact absurd rfl hne
  | cons next small ih =>
    have hnext := h next (by simp)
    rw [List.cons_append, breakWords_cons_cons (isUpper_of_isSmallChar hnext), List.cons_append]
    by_cases hsmall : small = []
    · subst hsmall
      rw [isSmallChar] at hnext
      rw [List.nil_append, breakWords, hnext, hcapital, Bool.and_self, if_pos rfl, List.nil_append]
    · rw [ih hsmall fun d hd => h d (List.mem_cons_of_mem next hd)]

theorem mergeSeparators_append {piece : Text} (hne : piece ≠ [])
    (h : ∀ c ∈ piece, isSeparator c = false) (inRun : Bool) (rest : Text) :
    mergeSeparators inRun (piece ++ rest) = piece ++ mergeSeparators false rest := by
  induction piece generalizing inRun with
  | nil => exact absurd rfl hne
  | cons c piece ih =>
    rw [List.cons_append, mergeSeparators, h c (by simp), if_neg Bool.false_ne_true,
      List.cons_append]
    by_cases hpiece : piece = []
    · subst hpiece
      rfl
    · rw [ih hpiece fun d hd => h d (List.mem_cons_of_mem c hd)]

end Path

/-! ## Snake words -/

/-- A word of a name in snake case: a small letter and behind it at least one small letter or
digit. -/
structure SnakeWord where
  first : Char
  rest : Text
  isLower_first : first.isLower = true
  rest_ne_nil : rest ≠ []
  isSmallChar_rest : ∀ c ∈ rest, isSmallChar c = true

namespace SnakeWord

def text (word : SnakeWord) : Text :=
  word.first :: word.rest

/-- The word with its first letter raised. -/
def hump (word : SnakeWord) : Text :=
  word.first.toUpper :: word.rest

variable (word : SnakeWord)

theorem text_ne_nil : word.text ≠ [] :=
  List.cons_ne_nil _ _

theorem hump_ne_nil : word.hump ≠ [] :=
  List.cons_ne_nil _ _

theorem isSmallChar_of_mem {c : Char} (h : c ∈ word.text) : isSmallChar c = true := by
  rcases List.mem_cons.1 h with rfl | h
  · rw [isSmallChar, word.isLower_first, Bool.true_or]
  · exact word.isSmallChar_rest c h

theorem isAlphanum_of_mem {c : Char} (h : c ∈ word.text) : c.isAlphanum = true :=
  isAlphanum_of_isSmallChar (word.isSmallChar_of_mem h)

theorem isAlphanum_of_mem_hump {c : Char} (h : c ∈ word.hump) : c.isAlphanum = true := by
  rcases List.mem_cons.1 h with rfl | h
  · exact isAlphanum_toUpper word.isLower_first
  · exact word.isAlphanum_of_mem (List.mem_cons_of_mem _ h)

@[simp] theorem foldCase_text : Text.foldCase word.text = word.text := by
  refine (List.map_congr_left fun c hc => ?_).trans (List.map_id word.text)
  have hupper := isUpper_of_isSmallChar (word.isSmallChar_of_mem hc)
  exact Char.toLower_eq_of_not_isUpper (by simp [hupper])

@[simp] theorem foldCase_hump : Text.foldCase word.hump = word.text := by
  rw [← foldCase_text, hump, text, Text.foldCase, Text.foldCase, List.map_cons, List.map_cons,
    Char.toLower_toUpper_eq_toLower]

theorem mapFirst_lower : Path.mapFirst Letter.lower word.text = word.text := by
  have hascii := toNat_lt_of_isAlphanum (word.isAlphanum_of_mem List.mem_cons_self)
  have hlower : word.first.toLower = word.first :=
    Char.toLower_eq_of_not_isUpper (Char.not_isUpper_of_isLower word.isLower_first)
  rw [text, Path.mapFirst, Letter.lower_of_ascii hascii, hlower, List.singleton_append]

theorem mapFirst_upper : Path.mapFirst Letter.upper word.text = word.hump := by
  have hascii := toNat_lt_of_isAlphanum (word.isAlphanum_of_mem List.mem_cons_self)
  rw [text, Path.mapFirst, Letter.upper_of_ascii hascii, hump, List.singleton_append]

end SnakeWord

/-! ## Names of snake words -/

/-- The name of some words in snake case. -/
def snakeName (first : SnakeWord) (others : List SnakeWord) : Text :=
  Text.join ['_'] ((first :: others).map SnakeWord.text)

/-- The name of some words in camel case. -/
def camelName (first : SnakeWord) (others : List SnakeWord) : Text :=
  first.text ++ others.flatMap SnakeWord.hump

section

variable (first : SnakeWord) (others : List SnakeWord)

/-- The bars of a name stand before all words but the first. -/
theorem snakeName_eq :
    snakeName first others = first.text ++ others.flatMap fun word => '_' :: word.text := by
  rw [snakeName, List.map_cons, Text.join_cons_eq_flatMap, List.flatMap_map]

theorem isAlphanum_of_mem_camelName {c : Char} (h : c ∈ camelName first others) :
    c.isAlphanum = true := by
  rw [camelName, List.mem_append, List.mem_flatMap] at h
  rcases h with h | ⟨word, -, h⟩
  · exact first.isAlphanum_of_mem h
  · exact word.isAlphanum_of_mem_hump h

/-- The two names differ in the bars and in the case of letters. -/
theorem foldCase_camelName :
    Text.foldCase (camelName first others) = (snakeName first others).filter (· ≠ '_') := by
  have hletters : ∀ word : SnakeWord, word.text.filter (· ≠ '_') = word.text := by
    intro word
    rw [List.filter_eq_self]
    intro c hc
    have hplain := word.isAlphanum_of_mem hc
    by_contra hbar
    obtain rfl : c = '_' := by simpa using hbar
    exact absurd hplain (by decide)
  have hothers : (others.flatMap SnakeWord.hump).map Char.toLower =
      (others.flatMap fun word => '_' :: word.text).filter (· ≠ '_') := by
    rw [List.map_flatMap, List.filter_flatMap]
    congr 1
    funext word
    calc word.hump.map Char.toLower = word.text := word.foldCase_hump
      _ = ('_' :: word.text).filter (· ≠ '_') := (hletters word).symm
  rw [camelName, snakeName_eq, Text.foldCase, List.map_append, List.filter_append, hothers,
    hletters]
  exact congrArg (· ++ _) first.foldCase_text

end

namespace Path

variable (first : SnakeWord) (others : List SnakeWord)

theorem camelSegment_snakeName :
    camelSegment (snakeName first others) = camelName first others := by
  have hwords : words (snakeName first others) = (first :: others).map SnakeWord.text := by
    apply words_join
    intro text htext
    obtain ⟨word, -, rfl⟩ := List.mem_map.1 htext
    exact ⟨word.text_ne_nil, fun c hc => isSeparator_of_isAlphanum (word.isAlphanum_of_mem hc)⟩
  rw [camelSegment, hwords, List.map_cons]
  simp only [first.mapFirst_lower, List.flatMap_map, SnakeWord.mapFirst_upper]
  rfl

/-- A raised letter is no acronym. -/
theorem breakAcronyms_camelName :
    breakAcronyms false (camelName first others) = camelName first others := by
  have hhumps : breakAcronyms false (others.flatMap SnakeWord.hump) =
      others.flatMap SnakeWord.hump := by
    induction others with
    | nil => rfl
    | cons word others ih =>
      rw [List.flatMap_cons, SnakeWord.hump, List.cons_append, breakAcronyms_false_cons,
        breakAcronyms_append word.rest_ne_nil fun c hc =>
          isUpper_of_isSmallChar (word.isSmallChar_rest c hc), ih]
  rw [camelName, breakAcronyms_append first.text_ne_nil fun _ hc =>
    isUpper_of_isSmallChar (first.isSmallChar_of_mem hc), hhumps]

/-- The bars are set before the raised letters. -/
theorem breakWords_humps (letter : Char) :
    breakWords (letter :: (first.rest ++ others.flatMap SnakeWord.hump)) =
      letter :: (first.rest ++ others.flatMap fun word => '_' :: word.hump) := by
  induction others generalizing letter first with
  | nil =>
    have hsmall : ∀ c ∈ first.rest, c.isUpper = false :=
      fun c hc => isUpper_of_isSmallChar (first.isSmallChar_rest c hc)
    simpa using breakWords_cons_eq_self hsmall letter
  | cons word others ih =>
    rw [List.flatMap_cons, List.flatMap_cons, SnakeWord.hump, List.cons_append,
      breakWords_small_append first.rest_ne_nil first.isSmallChar_rest
        (isUpper_toUpper word.isLower_first), ih]
    rfl

theorem mergeSeparators_humps :
    mergeSeparators false (others.flatMap fun word => '_' :: word.hump) =
      others.flatMap fun word => '_' :: word.hump := by
  induction others with
  | nil => rfl
  | cons word others ih =>
    have hbar : isSeparator '_' = true := by decide
    rw [List.flatMap_cons, List.cons_append, mergeSeparators, hbar, if_pos rfl,
      if_neg Bool.false_ne_true, mergeSeparators_append word.hump_ne_nil fun c hc =>
        isSeparator_of_isAlphanum (word.isAlphanum_of_mem_hump hc), ih]

/-- Snake case finds all bars of a name again, and sets no others. -/
theorem snakeSegment_camelName :
    snakeSegment (camelName first others) = snakeName first others := by
  have hwords : breakWords (camelName first others) =
      first.text ++ others.flatMap fun word => '_' :: word.hump :=
    breakWords_humps first others first.first
  have hmerge : mergeSeparators false (first.text ++ others.flatMap fun word => '_' :: word.hump) =
      first.text ++ others.flatMap fun word => '_' :: word.hump := by
    rw [mergeSeparators_append first.text_ne_nil fun c hc =>
      isSeparator_of_isAlphanum (first.isAlphanum_of_mem hc), mergeSeparators_humps]
  have hascii :
      ∀ c ∈ first.text ++ others.flatMap fun word => '_' :: word.hump, c.toNat < 0x80 := by
    intro c hc
    rcases List.mem_append.1 hc with hc | hc
    · exact toNat_lt_of_isAlphanum (first.isAlphanum_of_mem hc)
    · obtain ⟨word, -, hc⟩ := List.mem_flatMap.1 hc
      rcases List.mem_cons.1 hc with rfl | hc
      · decide
      · exact toNat_lt_of_isAlphanum (word.isAlphanum_of_mem_hump hc)
  have hlower : (others.flatMap fun word => '_' :: word.hump).map Char.toLower =
      others.flatMap fun word => '_' :: word.text := by
    rw [List.map_flatMap]
    congr 1
    funext word
    exact congrArg (List.cons '_') word.foldCase_hump
  rw [snakeSegment, breakAcronyms_camelName, hwords, hmerge, Text.lower_of_ascii hascii,
    snakeName_eq, Text.foldCase, List.map_append, hlower]
  exact congrArg (· ++ _) first.foldCase_text

/-- Whether a text is a word of a name in snake case. -/
def isSnakeWord : Text → Bool
  | [] => false
  | first :: rest => first.isLower && !rest.isEmpty && rest.all isSmallChar

/-- Whether a segment consists of such words, with single bars between them. -/
def isSnakeName (segment : Text) : Bool :=
  (Text.split '_' segment).all isSnakeWord

theorem exists_snakeWord {text : Text} (h : isSnakeWord text = true) :
    ∃ word : SnakeWord, word.text = text := by
  cases text with
  | nil => simp [isSnakeWord] at h
  | cons first rest =>
    simp only [isSnakeWord, Bool.and_eq_true, Bool.not_eq_true', List.isEmpty_eq_false_iff,
      List.all_eq_true] at h
    exact ⟨⟨first, rest, h.1.1, h.1.2, h.2⟩, rfl⟩

theorem exists_snakeWords {texts : List Text} (h : texts.all isSnakeWord = true) :
    ∃ words : List SnakeWord, words.map SnakeWord.text = texts := by
  induction texts with
  | nil => exact ⟨[], rfl⟩
  | cons text texts ih =>
    rw [List.all_cons, Bool.and_eq_true] at h
    obtain ⟨word, rfl⟩ := exists_snakeWord h.1
    obtain ⟨words, rfl⟩ := ih h.2
    exact ⟨word :: words, rfl⟩

theorem exists_eq_snakeName {segment : Text} (h : isSnakeName segment = true) :
    ∃ first others, segment = snakeName first others := by
  obtain ⟨words, hwords⟩ := exists_snakeWords h
  cases words with
  | nil => exact absurd hwords.symm (Text.split_ne_nil '_' segment)
  | cons first others => exact ⟨first, others, by rw [snakeName, hwords, Text.join_split]⟩

/-! ## Paths -/

theorem segments_mapSegments {f : Text → Text} {path : Path}
    (h : ∀ segment ∈ path.segments, segment ≠ each → '.' ∉ f segment) :
    (path.mapSegments f).segments =
      path.segments.map fun segment => if segment = each then segment else f segment := by
  apply segments_ofSegments (by simpa using segments_ne_nil path)
  intro text htext
  obtain ⟨segment, hsegment, rfl⟩ := List.mem_map.1 htext
  split
  · rename_i heach
    rw [heach]
    decide
  · rename_i hname
    exact h segment hsegment hname

/-- Two changes of the segments, one after the other, if the first makes no dots and no `#`. -/
theorem mapSegments_mapSegments {f g : Text → Text} {path : Path}
    (h : ∀ segment ∈ path.segments, segment ≠ each → '.' ∉ f segment ∧ f segment ≠ each) :
    (path.mapSegments f).mapSegments g = path.mapSegments fun segment => g (f segment) := by
  rw [mapSegments, segments_mapSegments fun segment hsegment hne => (h segment hsegment hne).1,
    List.map_map, mapSegments]
  congr 1
  apply List.map_congr_left
  intro segment hsegment
  by_cases heach : segment = each
  · simp [heach]
  · simp [heach, (h segment hsegment heach).2]

theorem mapSegments_eq_self {f : Text → Text} {path : Path}
    (h : ∀ segment ∈ path.segments, segment ≠ each → f segment = segment) :
    path.mapSegments f = path := by
  have hmap : (path.segments.map fun segment => if segment = each then segment else f segment) =
      path.segments := by
    refine (List.map_congr_left ?_).trans (List.map_id path.segments)
    intro segment hsegment
    by_cases heach : segment = each
    · rw [if_pos heach, id]
    · rw [if_neg heach, h segment hsegment heach, id]
  rw [mapSegments, hmap, ofSegments_segments]

/-- What is done to a text piece by piece, and not to dots, may be done to the segments. -/
theorem map_ofSegments {f : Text → Text}
    (happend : ∀ left right, f (left ++ right) = f left ++ f right) (hdot : f ['.'] = ['.']) (list : List Text) :
    f (ofSegments list) = ofSegments (list.map f) := by
  have hnil : f [] = [] := by
    simpa using happend [] []
  induction list with
  | nil => exact hnil
  | cons segment list ih =>
    by_cases hlist : list = []
    · subst hlist
      rfl
    · simp only [ofSegments] at ih ⊢
      rw [Text.join_cons segment hlist, List.map_cons, Text.join_cons _ (by simpa using hlist),
        happend, happend, hdot, ih]

/-- Snake case undoes camel case on paths of snake names: every segment is a `#` or consists
of words with single bars between them, each a small letter with small letters or digits
behind it.  Camel case takes out all bars, and leaves the rest as it is up to case. -/
theorem snakeCase_camelCase {path : Path}
    (h : ∀ segment ∈ path.segments, segment = each ∨ isSnakeName segment = true) :
    path.camelCase.snakeCase = path ∧
      Text.foldCase path.camelCase = path.filter (· ≠ '_') := by
  have hname : ∀ segment ∈ path.segments, segment ≠ each →
      ∃ first others, segment = snakeName first others := by
    intro segment hsegment hne
    exact exists_eq_snakeName ((h segment hsegment).resolve_left hne)
  constructor
  · rw [snakeCase, camelCase, mapSegments_mapSegments, mapSegments_eq_self]
    · intro segment hsegment hne
      obtain ⟨first, others, rfl⟩ := hname segment hsegment hne
      rw [camelSegment_snakeName, snakeSegment_camelName]
    · intro segment hsegment hne
      obtain ⟨first, others, rfl⟩ := hname segment hsegment hne
      rw [camelSegment_snakeName]
      constructor
      · intro hdot
        exact absurd (isAlphanum_of_mem_camelName first others hdot) (by decide)
      · intro heach
        have hmem : '#' ∈ camelName first others := by
          rw [heach]
          decide
        exact absurd (isAlphanum_of_mem_camelName first others hmem) (by decide)
  · have hfilter : path.filter (· ≠ '_') =
        ofSegments (path.segments.map (List.filter (· ≠ '_'))) := by
      conv_lhs => rw [← ofSegments_segments path]
      exact map_ofSegments List.filter_append (by decide) path.segments
    have hfold : ∀ list, Text.foldCase (ofSegments list) = ofSegments (list.map Text.foldCase) :=
      map_ofSegments (fun _ _ => List.map_append) (by decide)
    rw [hfilter, camelCase, mapSegments, hfold, List.map_map]
    congr 1
    apply List.map_congr_left
    intro segment hsegment
    by_cases heach : segment = each
    · rw [Function.comp, if_pos heach, heach]
      decide
    · obtain ⟨first, others, rfl⟩ := hname segment hsegment heach
      rw [Function.comp, if_neg heach, camelSegment_snakeName, foldCase_camelName]

theorem snakeCase_camelCase_digits :
    (∀ segment ∈ segments "user_id2.#.created_at_v10.http".toList,
        segment = each ∨ isSnakeName segment = true) ∧
      camelCase "user_id2.#.created_at_v10.http".toList =
        "userId2.#.createdAtV10.http".toList ∧
      snakeCase (camelCase "user_id2.#.created_at_v10.http".toList) =
        "user_id2.#.created_at_v10.http".toList :=
  have h : ∀ segment ∈ segments "user_id2.#.created_at_v10.http".toList,
      segment = each ∨ isSnakeName segment = true := by decide +kernel
  ⟨h, by decide +kernel, (snakeCase_camelCase h).1⟩

end Path

end Reshape
