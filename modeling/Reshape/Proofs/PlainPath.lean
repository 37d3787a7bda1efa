import Mathlib
import Reshape.Path.Direction
import Reshape.Projection.Parser
import Reshape.Rule.Compile

/-!
# Plain paths

A plain key is a nonempty text of ASCII letters, digits, `_` and `-`, and a
plain path is a sequence of plain keys with dots between them.  None of the
characters that mean something to a path or to an expression is plain, so plain
paths pass through cutting, joining and compiling unchanged.

There are three groups.

* Cutting and joining.  `Text.split` and `Text.join` undo each other as long as
  no piece holds the separator.
* Plain characters.  `Text.isPlainChar_bounds` gives their codes, and the
  lemmas below it say which classes of characters they stay out of.
* Plain paths.  `Path.segments_ofSegments` and `Rule.targetKeys_of_isPlain` are
  what the proofs about rules use.
-/

namespace Reshape

namespace Text

/-! ## Cutting and joining -/

theorem split_ne_nil (sep : Char) (text : Text) : split sep text ≠ [] := by
  cases text with
  | nil => simp [split]
  | cons c rest =>
    rw [split]
    split
    · simp
    · split <;> simp

/-- A text is cut at every separator, whatever stands around it. -/
theorem split_append_sep (sep : Char) (text rest : Text) :
    split sep (text ++ sep :: rest) = split sep text ++ split sep rest := by
  induction text with
  | nil => simp [split]
  | cons c text ih =>
    by_cases hc : c = sep
    · simp [split, hc, ih]
    · obtain ⟨piece, pieces, hsplit⟩ := List.exists_cons_of_ne_nil (split_ne_nil sep text)
      simp [split, hc, ih, hsplit]

theorem split_of_notMem {sep : Char} {piece : Text} (h : sep ∉ piece) :
    split sep piece = [piece] := by
  induction piece with
  | nil => simp [split]
  | cons c piece ih =>
    have hc : c ≠ sep := fun he => h (by simp [he])
    have hrest : sep ∉ piece := fun hm => h (by simp [hm])
    simp [split, hc, ih hrest]

@[simp] theorem join_nil (sep : Text) : join sep [] = [] := rfl

@[simp] theorem join_singleton (sep piece : Text) : join sep [piece] = piece := rfl

theorem join_cons {sep : Text} {pieces : List Text} (piece : Text) (h : pieces ≠ []) :
    join sep (piece :: pieces) = piece ++ sep ++ join sep pieces := by
  cases pieces with
  | nil => exact absurd rfl h
  | cons next pieces => rfl

/-- Cutting undoes joining. -/
theorem split_join {sep : Char} {pieces : List Text} (hne : pieces ≠ [])
    (h : ∀ piece ∈ pieces, sep ∉ piece) : split sep (join [sep] pieces) = pieces := by
  induction pieces with
  | nil => exact absurd rfl hne
  | cons piece pieces ih =>
    have hpiece : sep ∉ piece := h piece (by simp)
    by_cases hp : pieces = []
    · subst hp
      simp [split_of_notMem hpiece]
    · rw [join_cons piece hp, List.append_assoc, List.singleton_append,
        split_append_sep, split_of_notMem hpiece, ih hp (fun p hm => h p (by simp [hm])),
        List.singleton_append]

/-- Joining undoes cutting. -/
theorem join_split (sep : Char) (text : Text) : join [sep] (split sep text) = text := by
  induction text with
  | nil => simp [split]
  | cons c rest ih =>
    rw [split]
    by_cases hc : c = sep
    · rw [if_pos hc, join_cons [] (split_ne_nil sep rest), ih]
      simp [hc]
    · rw [if_neg hc]
      cases hs : split sep rest with
      | nil => exact absurd hs (split_ne_nil sep rest)
      | cons piece pieces =>
        rw [hs] at ih
        cases pieces with
        | nil => simpa using ih
        | cons next pieces =>
          rw [join_cons _ (by simp)] at ih
          simp only [join_cons _ (List.cons_ne_nil next pieces), ← ih, List.cons_append]

/-- The characters of a piece are characters of the text, and none is the separator. -/
theorem mem_of_mem_split {sep c : Char} {text piece : Text} (h : piece ∈ split sep text)
    (hc : c ∈ piece) : c ∈ text ∧ c ≠ sep := by
  induction text generalizing piece with
  | nil =>
    obtain rfl : piece = [] := by simpa [split] using h
    exact absurd hc List.not_mem_nil
  | cons d rest ih =>
    rw [split] at h
    split at h
    · rcases List.mem_cons.1 h with rfl | hrest
      · exact absurd hc List.not_mem_nil
      · exact (ih hrest hc).imp_left (List.mem_cons_of_mem d)
    · rename_i hd
      cases hsplit : split sep rest with
      | nil => exact absurd hsplit (split_ne_nil sep rest)
      | cons first pieces =>
        rw [hsplit] at h ih
        rcases List.mem_cons.1 h with rfl | hrest
        · rcases List.mem_cons.1 hc with rfl | hfirst
          · exact ⟨List.mem_cons_self, hd⟩
          · exact (ih List.mem_cons_self hfirst).imp_left (List.mem_cons_of_mem d)
        · exact (ih (List.mem_cons_of_mem first hrest) hc).imp_left (List.mem_cons_of_mem d)

theorem notMem_of_mem_split {sep : Char} {text piece : Text} (h : piece ∈ split sep text) :
    sep ∉ piece :=
  fun hsep => (mem_of_mem_split h hsep).2 rfl

/-- A text is left as it is if it lacks the first character of the piece that
is to be removed. -/
theorem erase_of_notMem {c : Char} {piece text : Text} (h : c ∉ text) :
    erase (c :: piece) text = text := by
  unfold erase
  induction text with
  | nil => rfl
  | cons d rest ih =>
    have hd : c ≠ d := fun he => h (by simp [he])
    have hrest : c ∉ rest := fun hm => h (by simp [hm])
    simp [eraseFrom, List.isPrefixOf, hd, ih hrest]

@[simp] theorem after?_append (start rest : Text) : after? start (start ++ rest) = some rest := by
  induction start with
  | nil => rfl
  | cons c start ih =>
    simp only [after?] at ih
    simp [after?, List.isPrefixOf?, ih]

/-! ## Plain characters -/

/-- The characters of plain keys. -/
def isPlainChar (c : Char) : Bool :=
  c.isAlphanum || c == '_' || c == '-'

/-- Whether a text is a plain key. -/
def isPlain (text : Text) : Bool :=
  !text.isEmpty && text.all isPlainChar

/-- The codes of the plain characters. -/
theorem isPlainChar_bounds {c : Char} (h : isPlainChar c = true) :
    48 ≤ c.toNat ∧ c.toNat ≤ 57 ∨ 65 ≤ c.toNat ∧ c.toNat ≤ 90 ∨
      97 ≤ c.toNat ∧ c.toNat ≤ 122 ∨ c.toNat = 95 ∨ c.toNat = 45 := by
  simp only [isPlainChar, Char.isAlphanum, Char.isAlpha, Char.isUpper, Char.isLower, Char.isDigit,
    Bool.or_eq_true, Bool.and_eq_true, decide_eq_true_eq, beq_iff_eq, UInt32.le_iff_toNat_le] at h
  rcases h with ((h | h) | rfl) | rfl
  · simp at h
    omega
  · simp at h
    omega
  · decide
  · decide

theorem isPlainChar_ne {c d : Char} (h : isPlainChar c = true) (hd : isPlainChar d = false) :
    c ≠ d := by
  rintro rfl
  simp [h] at hd

theorem isBlank_of_isPlainChar {c : Char} (h : isPlainChar c = true) : isBlank c = false := by
  have hb := isPlainChar_bounds h
  simp only [isBlank, Bool.or_eq_false_iff, Bool.and_eq_false_iff, decide_eq_false_iff_not,
    beq_eq_false_iff_ne]
  omega

theorem isDelimiter_of_isPlainChar {c : Char} (h : isPlainChar c = true) :
    Projection.isDelimiter c = false := by
  simp only [Projection.isDelimiter, Bool.or_eq_false_iff, beq_eq_false_iff_ne]
  refine ⟨⟨⟨⟨⟨?_, ?_⟩, ?_⟩, ?_⟩, ?_⟩, ?_⟩ <;> exact isPlainChar_ne h (by decide)

theorem endsKey_of_isPlainChar {c : Char} (h : isPlainChar c = true) :
    Projection.endsKey c = false := by
  simp only [Projection.endsKey, isBlank_of_isPlainChar h, isDelimiter_of_isPlainChar h,
    Bool.or_eq_false_iff, beq_eq_false_iff_ne]
  refine ⟨⟨⟨⟨?_, ?_⟩, ?_⟩, trivial⟩, trivial⟩ <;> exact isPlainChar_ne h (by decide)

theorem isPlain_cons {c : Char} {rest : Text} (h : isPlain (c :: rest) = true) :
    isPlainChar c = true ∧ ∀ d ∈ rest, isPlainChar d = true := by
  simpa [isPlain] using h

theorem ne_nil_of_isPlain {text : Text} (h : isPlain text = true) : text ≠ [] := by
  rintro rfl
  simp [isPlain] at h

theorem isPlainChar_of_mem {text : Text} (h : isPlain text = true) {c : Char} (hc : c ∈ text) :
    isPlainChar c = true := by
  simp only [isPlain, Bool.and_eq_true, List.all_eq_true] at h
  exact h.2 c hc

/-- A plain key holds no character that is not plain. -/
theorem notMem_of_isPlain {text : Text} (h : isPlain text = true) {c : Char}
    (hc : isPlainChar c = false) : c ∉ text :=
  fun hm => isPlainChar_ne (isPlainChar_of_mem h hm) hc rfl

end Text

/-! ## Plain paths -/

namespace Path

/-- Whether a path is a sequence of plain keys. -/
def isPlain (path : Path) : Bool :=
  (segments path).all Text.isPlain

theorem segments_ne_nil (path : Path) : segments path ≠ [] :=
  Text.split_ne_nil '.' path

theorem ofSegments_segments (path : Path) : ofSegments (segments path) = path :=
  Text.join_split '.' path

theorem segments_ofSegments {keys : List Text} (hne : keys ≠ []) (h : ∀ key ∈ keys, '.' ∉ key) :
    segments (ofSegments keys) = keys :=
  Text.split_join hne h

theorem notMem_of_mem_segments {path : Path} {segment : Text} (h : segment ∈ segments path) :
    '.' ∉ segment :=
  Text.notMem_of_mem_split h

theorem segments_append_dot (path rest : Path) :
    segments (path ++ '.' :: rest) = segments path ++ segments rest :=
  Text.split_append_sep '.' path rest

theorem ofSegments_cons {keys : List Text} (key : Text) (h : keys ≠ []) :
    ofSegments (key :: keys) = key ++ '.' :: ofSegments keys := by
  simp [ofSegments, Text.join_cons key h]

theorem ne_each_of_isPlain {key : Text} (h : key.isPlain = true) : key ≠ each := by
  rintro rfl
  exact absurd h (by decide)

theorem isPlain_of_mem_segments {path : Path} (h : path.isPlain = true) {key : Text}
    (hk : key ∈ segments path) : key.isPlain = true := by
  simp only [isPlain, List.all_eq_true] at h
  exact h key hk

theorem ne_nil_of_isPlain {path : Path} (h : path.isPlain = true) : path ≠ [] := by
  rintro rfl
  exact absurd h (by decide)

theorem isPlain_ofSegments {keys : List Text} (hne : keys ≠ [])
    (h : ∀ key ∈ keys, key.isPlain = true) : (ofSegments keys).isPlain = true := by
  have hdot : ∀ key ∈ keys, '.' ∉ key :=
    fun key hk => Text.notMem_of_isPlain (h key hk) (by decide)
  simpa [isPlain, segments_ofSegments hne hdot] using h

theorem ofSegments_concat {keys : List Text} (hne : keys ≠ []) (last : Text) :
    ofSegments (keys ++ [last]) = ofSegments keys ++ '.' :: last := by
  induction keys with
  | nil => exact absurd rfl hne
  | cons key keys ih =>
    by_cases hkeys : keys = []
    · subst hkeys
      rw [List.singleton_append, ofSegments_cons key (by simp)]
      rfl
    · rw [List.cons_append, ofSegments_cons key (by simp), ih hkeys, ofSegments_cons key hkeys,
        List.append_assoc, List.cons_append]

/-- A plain path is its last segment, or that segment behind a plain path. -/
theorem eq_last_or_append_of_isPlain {path : Path} (h : path.isPlain = true) :
    ∃ last : Text, last.isPlain = true ∧
      (path = last ∨ ∃ init : Path, init.isPlain = true ∧ path = init ++ '.' :: last) := by
  obtain ⟨keys, last, hsegments⟩ : ∃ keys last, segments path = keys ++ [last] :=
    ⟨_, _, (List.dropLast_append_getLast (segments_ne_nil path)).symm⟩
  have hplain : ∀ key ∈ keys ++ [last], key.isPlain = true :=
    fun key hkey => isPlain_of_mem_segments h (hsegments ▸ hkey)
  have hpath := ofSegments_segments path
  rw [hsegments] at hpath
  refine ⟨last, hplain last (by simp), ?_⟩
  by_cases hkeys : keys = []
  · subst hkeys
    exact .inl hpath.symm
  · refine .inr ⟨ofSegments keys, isPlain_ofSegments hkeys fun key hkey => hplain key (by simp [hkey]),
      ?_⟩
    rw [← hpath, ofSegments_concat hkeys]

/-- A character of a path is a dot or a character of one of its segments. -/
theorem mem_segments_of_mem {path : Path} {c : Char} (hc : c ∈ path) :
    c = '.' ∨ ∃ key ∈ segments path, c ∈ key := by
  have key : ∀ keys : List Text, c ∈ ofSegments keys → c = '.' ∨ ∃ key ∈ keys, c ∈ key := by
    intro keys
    induction keys with
    | nil => simp [ofSegments]
    | cons first keys ih =>
      intro hm
      by_cases hk : keys = []
      · subst hk
        exact .inr ⟨first, by simp, by simpa [ofSegments] using hm⟩
      · rw [ofSegments_cons first hk, List.mem_append, List.mem_cons] at hm
        rcases hm with hm | hm | hm
        · exact .inr ⟨first, by simp, hm⟩
        · exact .inl hm
        · rcases ih hm with h | ⟨key, hkey, hmem⟩
          · exact .inl h
          · exact .inr ⟨key, by simp [hkey], hmem⟩
  apply key
  rwa [ofSegments_segments]

/-- A path whose first segment is plain starts with a plain character. -/
theorem exists_cons_of_segments {path : Path} {key : Text} {rest : List Text}
    (h : segments path = key :: rest) (hkey : key.isPlain = true) :
    ∃ c tail, path = c :: tail ∧ Text.isPlainChar c = true := by
  cases path with
  | nil =>
    simp only [segments, Text.split, List.cons.injEq] at h
    exact absurd h.1.symm (Text.ne_nil_of_isPlain hkey)
  | cons c tail =>
    refine ⟨c, tail, rfl, ?_⟩
    rw [segments, Text.split] at h
    split at h
    · simp only [List.cons.injEq] at h
      exact absurd h.1.symm (Text.ne_nil_of_isPlain hkey)
    · split at h
      all_goals
        simp only [List.cons.injEq] at h
        rw [← h.1] at hkey
        exact (Text.isPlain_cons hkey).1

end Path

namespace Rule

/-- The keys of a target path that starts with an ordinary key and does not
mention the current value. -/
theorem targetKeys_eq {path : Path} (hthis : '@' ∉ path) (hdot : path.head? ≠ some '.')
    (heach : path.head? ≠ some '#') : targetKeys path = [] :: Path.segments path := by
  have herase : Text.erase "@this.".toList path = path := Text.erase_of_notMem hthis
  have hafter : Text.after? ['.'] path = none := by
    cases path with
    | nil => rfl
    | cons c rest =>
      have hc : '.' ≠ c := fun h => hdot (by rw [h, List.head?_cons])
      simp [Text.after?, List.isPrefixOf?, hc]
  simp only [targetKeys, herase, hafter, Option.getD_none, if_neg heach]
  simp [Path.segments, Text.split]

/-- The keys of a target path whose first key is plain stand under the root. -/
theorem targetKeys_of_segments {path : Path} {key : Text} {rest : List Text}
    (h : Path.segments path = key :: rest) (hkey : key.isPlain = true)
    (hthis : ∀ key ∈ Path.segments path, '@' ∉ key) :
    targetKeys path = [] :: Path.segments path := by
  obtain ⟨c, tail, rfl, hc⟩ := Path.exists_cons_of_segments h hkey
  apply targetKeys_eq
  · intro hm
    rcases Path.mem_segments_of_mem hm with hdot | ⟨key, hkey, hmem⟩
    · exact absurd hdot (by decide)
    · exact hthis key hkey hmem
  · simpa using Text.isPlainChar_ne hc (by decide)
  · simpa using Text.isPlainChar_ne hc (by decide)

theorem targetKeys_of_isPlain {path : Path} (h : path.isPlain = true) :
    targetKeys path = [] :: Path.segments path := by
  obtain ⟨key, rest, hsegments⟩ := List.exists_cons_of_ne_nil (Path.segments_ne_nil path)
  have hplain : ∀ key ∈ Path.segments path, key.isPlain = true :=
    fun key hkey => Path.isPlain_of_mem_segments h hkey
  exact targetKeys_of_segments hsegments (hplain key (by simp [hsegments]))
    fun key hkey => Text.notMem_of_isPlain (hplain key hkey) (by decide)

end Rule

end Reshape
