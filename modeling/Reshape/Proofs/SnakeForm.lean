import Reshape.Proofs.Casing

/-!
# The form of names in snake case

Snake case sets bars before capitals, makes one bar of each run of separators, and lowers the
letters.  A bar may be set next to a separator that is there already, but runs are merged after
all bars are set, so one application reaches a form in which there is nothing left to do.

* Passes.  Setting bars and merging runs change nothing but separators
  (`filter_breakAcronyms`, `filter_breakWords`, `filter_mergeSeparators`), and merging leaves
  single bars (`eq_bar_of_mem_mergeSeparators`, `isChain_mergeSeparators`).
* Form.  `IsSnakeForm` says what a segment in snake case looks like.  Segments in snake case
  have the form, `isSnakeForm_snakeSegment`, and those that have it are left alone,
  `snakeSegment_eq_self`.
* Paths.  `snakeCase_snakeCase` is the result.
-/

namespace Reshape

namespace Path

/-! ## Characters -/

/-- Lowering a letter makes no separator and takes none away. -/
@[simp] theorem isSeparator_toLower (c : Char) : isSeparator c.toLower = isSeparator c := by
  by_cases hupper : c.isUpper = true
  · have halpha : c.isAlpha = true := by rw [Char.isAlpha, hupper, Bool.true_or]
    have hlower : c.toLower.isAlpha = true := by rw [Char.isAlpha_toLower_eq_isAlpha, halpha]
    rw [isSeparator_of_isAlphanum (by rw [Char.isAlphanum, hlower, Bool.true_or]),
      isSeparator_of_isAlphanum (by rw [Char.isAlphanum, halpha, Bool.true_or])]
  · rw [Char.toLower_eq_of_not_isUpper hupper]

theorem toLower_eq_iff {c d : Char} (hd : d.isAlpha = false) : c.toLower = d ↔ c = d := by
  by_cases hupper : c.isUpper = true
  · have hc : c.isAlpha = true := by rw [Char.isAlpha, hupper, Bool.true_or]
    have hlower : c.toLower.isAlpha = true := by rw [Char.isAlpha_toLower_eq_isAlpha, hc]
    refine iff_of_false ?_ ?_
    · rintro rfl
      simp [hlower] at hd
    · rintro rfl
      simp [hc] at hd
  · rw [Char.toLower_eq_of_not_isUpper hupper]

theorem toNat_toLower_lt {c : Char} (h : c.toNat < 0x80) : c.toLower.toNat < 0x80 := by
  by_cases hupper : c.isUpper = true
  · apply toNat_lt_of_isAlphanum
    rw [Char.isAlphanum, Char.isAlpha_toLower_eq_isAlpha, Char.isAlpha, hupper, Bool.true_or,
      Bool.true_or]
  · rwa [Char.toLower_eq_of_not_isUpper hupper]

theorem isSeparator_eq_true_iff {c : Char} :
    isSeparator c = true ↔ c = '_' ∨ c = '-' ∨ isBlank c = true := by
  simp [isSeparator, or_assoc]

/-! ## The passes -/

section

variable {p : Char → Bool} (hbar : p '_' = false)

include hbar

theorem filter_breakAcronyms (inRun : Bool) (text : Text) :
    (breakAcronyms inRun text).filter p = text.filter p := by
  induction text generalizing inRun with
  | nil => rfl
  | cons c rest ih =>
    rw [breakAcronyms_cons]
    split
    · rw [List.filter_cons_of_neg (by simp [hbar]), List.filter_cons, List.filter_cons, ih]
    · rw [List.filter_cons, List.filter_cons, ih]

theorem filter_breakWords (text : Text) : (breakWords text).filter p = text.filter p := by
  induction text with
  | nil => rfl
  | cons c rest ih =>
    cases rest with
    | nil => rfl
    | cons next rest =>
      rw [breakWords]
      split
      · rw [List.filter_cons, List.filter_cons_of_neg (by simp [hbar]), ih, ← List.filter_cons]
      · rw [List.filter_cons, ih, ← List.filter_cons]

end

theorem breakAcronyms_eq_self {text : Text} (h : ∀ c ∈ text, c.isUpper = false) (inRun : Bool) :
    breakAcronyms inRun text = text := by
  by_cases hne : text = []
  · rw [hne, breakAcronyms]
  · have happend := breakAcronyms_append hne h inRun []
    rwa [breakAcronyms, List.append_nil] at happend

theorem breakWords_eq_self {text : Text} (h : ∀ c ∈ text, c.isUpper = false) :
    breakWords text = text := by
  cases text with
  | nil => rfl
  | cons c rest => exact breakWords_cons_eq_self (fun d hd => h d (List.mem_cons_of_mem c hd)) c

theorem filter_mergeSeparators (inRun : Bool) (text : Text) :
    (mergeSeparators inRun text).filter (!isSeparator ·) = text.filter (!isSeparator ·) := by
  induction text generalizing inRun with
  | nil => rfl
  | cons c rest ih =>
    rw [mergeSeparators]
    split
    · rename_i hc
      have hbar : isSeparator '_' = true := by decide
      rw [List.filter_cons_of_neg (a := c) (by simp [hc])]
      split
      · exact ih true
      · rw [List.filter_cons_of_neg (by simp [hbar]), ih]
    · rw [List.filter_cons, List.filter_cons, ih]

theorem eq_bar_of_mem_mergeSeparators {inRun : Bool} {text : Text} {c : Char}
    (h : c ∈ mergeSeparators inRun text) (hc : isSeparator c = true) : c = '_' := by
  induction text generalizing inRun with
  | nil => exact absurd h List.not_mem_nil
  | cons d rest ih =>
    rw [mergeSeparators] at h
    split at h
    · split at h
      · exact ih h
      · rcases List.mem_cons.1 h with rfl | hrest
        · rfl
        · exact ih hrest
    · rename_i hd
      rcases List.mem_cons.1 h with rfl | hrest
      · exact absurd hc hd
      · exact ih hrest

/-- Within a run of separators no bar is set. -/
theorem head?_mergeSeparators (text : Text) : (mergeSeparators true text).head? ≠ some '_' := by
  induction text with
  | nil => simp [mergeSeparators]
  | cons c rest ih =>
    rw [mergeSeparators]
    split
    · exact ih
    · rename_i hc
      rw [List.head?_cons]
      intro he
      obtain rfl : c = '_' := Option.some.inj he
      exact hc (by decide)

/-- Not both of two characters are bars. -/
def Apart (c d : Char) : Prop :=
  ¬ (c = '_' ∧ d = '_')

theorem isChain_mergeSeparators (inRun : Bool) (text : Text) :
    (mergeSeparators inRun text).IsChain Apart := by
  induction text generalizing inRun with
  | nil => exact .nil
  | cons c rest ih =>
    rw [mergeSeparators]
    split
    · split
      · exact ih true
      · rw [List.isChain_cons]
        refine ⟨fun d hd => ?_, ih true⟩
        rintro ⟨-, rfl⟩
        exact head?_mergeSeparators rest hd
    · rename_i hc
      rw [List.isChain_cons]
      refine ⟨fun d _ => ?_, ih false⟩
      rintro ⟨rfl, -⟩
      exact hc (by decide)

/-- Bars that stand apart are left alone. -/
theorem mergeSeparators_eq_self {text : Text} (hbars : ∀ c ∈ text, isSeparator c = true → c = '_')
    (hapart : text.IsChain Apart) {inRun : Bool} (hstart : inRun = true → text.head? ≠ some '_') :
    mergeSeparators inRun text = text := by
  induction text generalizing inRun with
  | nil => rfl
  | cons c rest ih =>
    obtain ⟨hnext, hrest⟩ := List.isChain_cons.1 hapart
    have hbarsRest : ∀ d ∈ rest, isSeparator d = true → d = '_' :=
      fun d hd => hbars d (List.mem_cons_of_mem c hd)
    rw [mergeSeparators]
    split
    · -- a bar is kept because it starts a run, and what follows it is no bar
      rename_i hc
      obtain rfl : c = '_' := hbars c List.mem_cons_self hc
      have hrun : ¬ inRun = true := fun he => hstart he rfl
      rw [if_neg hrun, ih hbarsRest hrest fun _ he => hnext '_' he ⟨rfl, rfl⟩]
    · rw [ih hbarsRest hrest fun he => absurd he Bool.false_ne_true]

theorem isChain_apart_iff {text : Text} : text.IsChain Apart ↔ ¬ ['_', '_'] <:+: text := by
  rw [List.isChain_iff_forall_rel_of_append_cons_cons]
  constructor
  · rintro h ⟨left, right, rfl⟩
    exact h (List.append_assoc left _ right) ⟨rfl, rfl⟩
  · rintro h c d left right rfl ⟨rfl, rfl⟩
    exact h ⟨left, right, List.append_assoc left _ right⟩

/-! ## Segments -/

/-- What a segment in snake case looks like: no capitals, and no separators but single bars. -/
structure IsSnakeForm (segment : Text) : Prop where
  ascii : ∀ c ∈ segment, c.toNat < 0x80
  no_capital : ∀ c ∈ segment, c.isUpper = false
  no_dash : '-' ∉ segment
  no_blank : ∀ c ∈ segment, isBlank c = false
  bars_apart : ¬ ['_', '_'] <:+: segment

theorem isSnakeForm_iff {segment : Text} :
    IsSnakeForm segment ↔
      segment.all (fun c => c.toNat < 0x80 && !c.isUpper && c != '-' && !isBlank c) = true ∧
        ¬ ['_', '_'] <:+: segment := by
  simp only [List.all_eq_true, Bool.and_eq_true, decide_eq_true_eq, Bool.not_eq_true', bne_iff_ne]
  constructor
  · intro h
    refine ⟨fun c hc => ⟨⟨⟨h.ascii c hc, h.no_capital c hc⟩, ?_⟩, h.no_blank c hc⟩, h.bars_apart⟩
    rintro rfl
    exact h.no_dash hc
  · rintro ⟨h, hapart⟩
    exact ⟨fun c hc => (h c hc).1.1.1, fun c hc => (h c hc).1.1.2, fun hc => (h '-' hc).1.2 rfl,
      fun c hc => (h c hc).2, hapart⟩

instance (segment : Text) : Decidable (IsSnakeForm segment) :=
  decidable_of_iff _ isSnakeForm_iff.symm

/-- A segment with all bars set, in the case in which it was written. -/
def barred (segment : Text) : Text :=
  mergeSeparators false (breakWords (breakAcronyms false segment))

theorem filter_barred (segment : Text) :
    (barred segment).filter (!isSeparator ·) = segment.filter (!isSeparator ·) := by
  have hbar : (!isSeparator '_') = false := by decide
  rw [barred, filter_mergeSeparators, filter_breakWords hbar, filter_breakAcronyms hbar]

/-- What is no bar was there before. -/
theorem mem_of_mem_barred {segment : Text} {c : Char} (h : c ∈ barred segment) :
    c = '_' ∨ isSeparator c = false ∧ c ∈ segment := by
  cases hc : isSeparator c with
  | true => exact .inl (eq_bar_of_mem_mergeSeparators h hc)
  | false =>
    have hkept : c ∈ (barred segment).filter (!isSeparator ·) :=
      List.mem_filter.2 ⟨h, by simp [hc]⟩
    rw [filter_barred] at hkept
    exact .inr ⟨rfl, (List.mem_filter.1 hkept).1⟩

section

variable {segment : Text} (h : ∀ c ∈ segment, c.toNat < 0x80)

include h

theorem ascii_barred : ∀ c ∈ barred segment, c.toNat < 0x80 := by
  intro c hc
  rcases mem_of_mem_barred hc with rfl | ⟨-, hmem⟩
  · decide
  · exact h c hmem

theorem snakeSegment_of_ascii : snakeSegment segment = Text.foldCase (barred segment) :=
  Text.lower_of_ascii (ascii_barred h)

theorem isSnakeForm_snakeSegment : IsSnakeForm (snakeSegment segment) := by
  have hbars : ∀ c ∈ barred segment, isSeparator c.toLower = true → c.toLower = '_' := by
    intro c hc hsep
    rw [isSeparator_toLower] at hsep
    rw [eq_bar_of_mem_mergeSeparators hc hsep]
    decide
  rw [snakeSegment_of_ascii h, Text.foldCase]
  refine ⟨?_, ?_, ?_, ?_, isChain_apart_iff.1 ?_⟩
  · rw [List.forall_mem_map]
    exact fun c hc => toNat_toLower_lt (ascii_barred h c hc)
  · rw [List.forall_mem_map]
    exact fun c _ => Char.isUpper_toLower_eq_false c
  · intro hdash
    obtain ⟨c, hc, hlower⟩ := List.mem_map.1 hdash
    have hbar := hbars c hc (by rw [hlower]; decide)
    rw [hlower] at hbar
    exact absurd hbar (by decide)
  · rw [List.forall_mem_map]
    intro c hc
    by_contra hblank
    have hblank : isBlank c.toLower = true := by simpa using hblank
    have hbar := hbars c hc (isSeparator_eq_true_iff.2 (.inr (.inr hblank)))
    rw [hbar] at hblank
    exact absurd hblank (by decide)
  · -- lowering makes no bars, so those of the result are those that were merged
    rw [List.isChain_map]
    refine (isChain_mergeSeparators false _).imp fun c d hapart hbars => hapart ?_
    exact hbars.imp (toLower_eq_iff (by decide)).1 (toLower_eq_iff (by decide)).1

/-- Snake case keeps all characters but separators, up to case. -/
theorem filter_snakeSegment :
    (snakeSegment segment).filter (!isSeparator ·) =
      (Text.foldCase segment).filter (!isSeparator ·) := by
  have hcomp : (fun c => !isSeparator c) ∘ Char.toLower = fun c => !isSeparator c := by
    funext c
    rw [Function.comp, isSeparator_toLower]
  rw [snakeSegment_of_ascii h, Text.foldCase, Text.foldCase, List.filter_map, List.filter_map,
    hcomp, filter_barred]

end

/-- A segment that has the form is left alone. -/
theorem snakeSegment_eq_self {segment : Text} (h : IsSnakeForm segment) :
    snakeSegment segment = segment := by
  have hbars : ∀ c ∈ segment, isSeparator c = true → c = '_' := by
    intro c hc hsep
    rcases isSeparator_eq_true_iff.1 hsep with hbar | rfl | hblank
    · exact hbar
    · exact absurd hc h.no_dash
    · simp [h.no_blank c hc] at hblank
  have hbarred : barred segment = segment := by
    rw [barred, breakAcronyms_eq_self h.no_capital, breakWords_eq_self h.no_capital,
      mergeSeparators_eq_self hbars (isChain_apart_iff.2 h.bars_apart) (by simp)]
  have hlower : ∀ c ∈ segment, c.toLower = id c :=
    fun c hc => Char.toLower_eq_of_not_isUpper (by simp [h.no_capital c hc])
  rw [snakeSegment_of_ascii h.ascii, hbarred, Text.foldCase, List.map_congr_left hlower,
    List.map_id]

/-! ## Paths -/

section

variable {path : Path} (h : ∀ c ∈ path, c.toNat < 0x80)

include h

theorem ascii_of_mem_segments {segment : Text} (hsegment : segment ∈ path.segments) :
    ∀ c ∈ segment, c.toNat < 0x80 :=
  fun c hc => h c (Text.mem_of_mem_split hsegment hc).1

/-- Every segment is put into snake case. -/
theorem segments_snakeCase :
    path.snakeCase.segments =
      path.segments.map fun segment =>
        if segment = each then segment else snakeSegment segment := by
  apply segments_mapSegments
  intro segment hsegment _ hdot
  have hkept : '.' ∈ (snakeSegment segment).filter (!isSeparator ·) :=
    List.mem_filter.2 ⟨hdot, by decide⟩
  rw [filter_snakeSegment (ascii_of_mem_segments h hsegment)] at hkept
  obtain ⟨c, hc, hlower⟩ := List.mem_map.1 (List.mem_filter.1 hkept).1
  obtain rfl : c = '.' := (toLower_eq_iff (by decide)).1 hlower
  exact notMem_of_mem_segments hsegment hc

theorem isSnakeForm_of_mem_snakeCase {segment : Text}
    (hsegment : segment ∈ path.snakeCase.segments) : IsSnakeForm segment := by
  rw [segments_snakeCase h] at hsegment
  obtain ⟨source, hsource, rfl⟩ := List.mem_map.1 hsegment
  split
  · rename_i heach
    rw [heach]
    decide
  · exact isSnakeForm_snakeSegment (ascii_of_mem_segments h hsource)

end

theorem snakeCase_eq_self {path : Path} (h : ∀ segment ∈ path.segments, IsSnakeForm segment) :
    path.snakeCase = path :=
  mapSegments_eq_self fun segment hsegment _ => snakeSegment_eq_self (h segment hsegment)

theorem filter_snakeCase {path : Path} (h : ∀ c ∈ path, c.toNat < 0x80) :
    path.snakeCase.filter (!isSeparator ·) = (Text.foldCase path).filter (!isSeparator ·) := by
  have hlhs := map_ofSegments (f := List.filter (!isSeparator ·)) List.filter_append (by decide)
  have hrhs := map_ofSegments (f := fun text => (Text.foldCase text).filter (!isSeparator ·))
    (fun left right => by rw [Text.foldCase, List.map_append, List.filter_append]; rfl) (by decide)
  conv_rhs => rw [← ofSegments_segments path]
  rw [hrhs, snakeCase, mapSegments, hlhs, List.map_map]
  congr 1
  apply List.map_congr_left
  intro segment hsegment
  rw [Function.comp]
  split
  · rename_i heach
    rw [heach]
    decide
  · exact filter_snakeSegment (ascii_of_mem_segments h hsegment)

/-- Snake case reaches its form at once, and a path is left alone exactly if it has this form:
in no segment there is a capital, a dash, a blank or a bar next to a bar.  All characters but the
separators are kept, up to case. -/
theorem snakeCase_snakeCase {path : Path} (h : ∀ c ∈ path, c.toNat < 0x80) :
    path.snakeCase.snakeCase = path.snakeCase ∧
      (∀ segment ∈ path.snakeCase.segments, IsSnakeForm segment) ∧
      (path.snakeCase = path ↔ ∀ segment ∈ path.segments, IsSnakeForm segment) ∧
      path.snakeCase.filter (!isSeparator ·) = (Text.foldCase path).filter (!isSeparator ·) := by
  have hform : ∀ segment ∈ path.snakeCase.segments, IsSnakeForm segment :=
    fun _ hsegment => isSnakeForm_of_mem_snakeCase h hsegment
  refine ⟨snakeCase_eq_self hform, hform, ⟨fun he => ?_, snakeCase_eq_self⟩, filter_snakeCase h⟩
  rwa [he] at hform

theorem snakeCase_snakeCase_mixed :
    (∀ c ∈ "XMLHttpReq2Go.#. -_A__b\tC.-.userID-_x..".toList, c.toNat < 0x80) ∧
      snakeCase "XMLHttpReq2Go.#. -_A__b\tC.-.userID-_x..".toList =
        "xml_http_req2_go.#._a_b_c._.user_id_x..".toList ∧
      snakeCase (snakeCase "XMLHttpReq2Go.#. -_A__b\tC.-.userID-_x..".toList) =
        snakeCase "XMLHttpReq2Go.#. -_A__b\tC.-.userID-_x..".toList :=
  have hall : "XMLHttpReq2Go.#. -_A__b\tC.-.userID-_x..".toList.all (·.toNat < 0x80) = true := by
    decide +kernel
  have h : ∀ c ∈ "XMLHttpReq2Go.#. -_A__b\tC.-.userID-_x..".toList, c.toNat < 0x80 :=
    fun c hc => of_decide_eq_true (List.all_eq_true.1 hall c hc)
  ⟨h, by decide +kernel, (snakeCase_snakeCase h).1⟩

end Path

end Reshape
