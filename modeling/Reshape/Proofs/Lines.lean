import Reshape.Proofs.Reading
import Reshape.Proofs.Trimming
import Reshape.Rule.Lines

/-!
# Rules and their lines

Rules are read from lines and written as lines again.  The only thing that
writing leaves out is the mark of a type that is not named, as in `path@`.  What
is left of such a side may read as something else: the path may have a type
suffix of its own, or it may end in blanks that are trimmed with the line.  This
module shows that nothing else can go wrong.

There are three groups.

* Lines.  `Text.lines_flatMap` cuts a text that was put together from lines, and
  `RuleSet.isLine_of_mem_ruleLines` says what the lines of rules look like.
* Sides.  `Endpoint.ofText_cases` tells the sides that lose their mark from those
  that are written as they were read.
* Rules.  `Rule.AreSides.ofLine_trim_text_iff` is the round trip of one line,
  and `RuleSet.ofText_text_eq_iff` that of a text.
-/

namespace Reshape

/-! ## Lines -/

namespace Text

/-- A carriage return at the end of a line is a blank, so trimming does not see it. -/
theorem trim_chopReturn (line : Text) : trim (chopReturn line) = trim line := by
  unfold chopReturn
  split
  · rename_i hlast
    have hline : line = line.dropLast ++ ['\r'] := by
      have := List.dropLast_append_getLast? '\r' hlast
      exact this.symm
    have hblank : isBlank '\r' = true := by decide
    have hstart : trimStart isBlank (line.dropLast ++ ['\r']) =
        if (trimStart isBlank line.dropLast).isEmpty then []
        else trimStart isBlank line.dropLast ++ ['\r'] := by
      simp [trimStart, List.dropWhile_append, hblank]
    rw [hline, List.dropLast_concat, trim, trim, trimBoth, trimBoth, hstart]
    split
    · rename_i hempty
      rw [List.isEmpty_iff.1 hempty]
    · exact (List.rdropWhile_concat_pos _ _ _ hblank).symm
  · rfl

/-- Lines that were put together are found again. -/
theorem lines_flatMap {pieces : List Text} (h : ∀ piece ∈ pieces, '\n' ∉ piece) :
    lines (pieces.flatMap (· ++ ['\n'])) = pieces.map chopReturn := by
  have hsplit : split '\n' (pieces.flatMap (· ++ ['\n'])) = pieces ++ [[]] := by
    induction pieces with
    | nil => rfl
    | cons piece pieces ih =>
      rw [List.flatMap_cons, List.append_assoc, List.singleton_append, split_append_sep,
        split_of_notMem (h piece (by simp)), ih fun other hother => h other (by simp [hother])]
      rfl
  simp [lines, hsplit]

theorem notMem_of_mem_lines {text line : Text} (h : line ∈ lines text) : '\n' ∉ line := by
  have hchop : ∀ piece ∈ split '\n' text, '\n' ∉ chopReturn piece := by
    intro piece hpiece hmem
    apply notMem_of_mem_split hpiece
    unfold chopReturn at hmem
    split at hmem
    · exact List.mem_of_mem_dropLast hmem
    · exact hmem
  unfold lines at h
  split at h
  · simp at h
  · rename_i last ended hreverse
    have hpieces : split '\n' text = ended.reverse ++ [last] := by
      rw [← List.reverse_reverse (split '\n' text), hreverse, List.reverse_cons]
    have hended : ∀ line ∈ ended.reverse.map chopReturn, '\n' ∉ line := by
      intro line hline
      obtain ⟨piece, hpiece, rfl⟩ := List.mem_map.1 hline
      exact hchop piece (by simp [hpieces, List.mem_reverse.1 hpiece])
    dsimp only at h
    split at h
    · exact hended line h
    · rcases List.mem_append.1 h with hline | hline
      · exact hended line hline
      · obtain rfl := List.mem_singleton.1 hline
        exact notMem_of_mem_split (hpieces ▸ List.mem_concat_self)

end Text

/-- A line of a rule: no blanks around it, and no line feed in it. -/
structure Rule.IsLine (line : Text) : Prop where
  head : ∀ c ∈ line.head?, isBlank c = false
  last : ∀ c ∈ line.getLast?, isBlank c = false
  unbroken : '\n' ∉ line

theorem RuleSet.isLine_of_mem_ruleLines {text line : Text} (h : line ∈ ruleLines text) :
    Rule.IsLine line := by
  obtain ⟨hmem, -⟩ := List.mem_filter.1 h
  obtain ⟨whole, hwhole, rfl⟩ := List.mem_map.1 hmem
  exact ⟨Text.head?_trimBoth, Text.getLast?_trimBoth, fun hbreak =>
    Text.notMem_of_mem_lines hwhole ((Text.trimBoth_sublist _ _).mem hbreak)⟩

/-! ## Sides -/

namespace Path

theorem lastMark?_eq_some {reversed suffix type before : Text}
    (h : lastMark? suffix reversed = some (type, before)) :
    reversed.reverse ++ suffix = before.reverse ++ '@' :: type ∧ before.head? ≠ some '.' := by
  induction reversed generalizing suffix with
  | nil => simp [lastMark?] at h
  | cons c rest ih =>
    rw [lastMark?] at h
    split at h
    · rename_i hmark
      simp only [Option.some.injEq, Prod.mk.injEq] at h
      obtain ⟨rfl, rfl⟩ := h
      simp only [Bool.and_eq_true, decide_eq_true_eq] at hmark
      obtain ⟨rfl, hdot⟩ := hmark
      exact ⟨by simp, hdot⟩
    · have hrest := ih h
      rw [List.reverse_cons, List.append_assoc]
      exact hrest

/-- What a type suffix is cut off from. -/
theorem typeSuffix?_eq_some {text path type : Text} (h : typeSuffix? text = some (path, type)) :
    text = path ++ '@' :: type ∧ path.getLast? ≠ some '.' := by
  unfold typeSuffix? at h
  split at h
  · simp at h
  · rename_i suffix before hmark
    have hcut := lastMark?_eq_some hmark
    split at h
    · simp at h
    · split at h
      · simp at h
      · simp only [Option.some.injEq, Prod.mk.injEq] at h
        obtain ⟨rfl, rfl⟩ := h
        simpa using hcut

/-- The search for the mark passes over a text without marks. -/
theorem lastMark?_append_of_free {free : Text} (h : '@' ∉ free) (suffix rest : Text) :
    lastMark? suffix (free ++ rest) = lastMark? (free.reverse ++ suffix) rest := by
  induction free generalizing suffix with
  | nil => rfl
  | cons c free ih =>
    simp only [List.mem_cons, not_or] at h
    have hc : ¬ (c = '@' && (free ++ rest).head? ≠ some '.') = true := by
      simp [Ne.symm h.1]
    rw [List.cons_append, lastMark?, if_neg hc, ih h.2, List.reverse_cons, List.append_assoc]
    rfl

theorem typeSuffix?_of_notMem {path : Path} (h : '@' ∉ path) : typeSuffix? path = none := by
  have hmark : lastMark? [] path.reverse = none := by
    have hfree := lastMark?_append_of_free (mt List.mem_reverse.1 h) [] []
    rwa [List.append_nil] at hfree
  rw [typeSuffix?, hmark]

/-- A mark is the type suffix, unless it stands behind a dot or begins a modifier. -/
theorem typeSuffix?_append {path : Path} {type : Text} (hpath : path.getLast? ≠ some '.')
    (htype : type.IsSegment) (hname : path = [] → Modifier.ofName? type none = none) :
    typeSuffix? (path ++ '@' :: type) = some (path, type) := by
  have hmark : lastMark? [] (path ++ '@' :: type).reverse = some (type, path.reverse) := by
    rw [List.reverse_append, List.reverse_cons, List.append_assoc,
      lastMark?_append_of_free (mt List.mem_reverse.1 htype.2)]
    simp [lastMark?, hpath]
  rw [typeSuffix?, hmark]
  simpa [htype.1] using hname

/-- A mark at the end is a type suffix, unless it stands behind a dot. -/
theorem typeSuffix?_concat {path : Path} (h : path.getLast? ≠ some '.') :
    typeSuffix? (path ++ ['@']) = some (path, []) :=
  typeSuffix?_append h ⟨List.not_mem_nil, List.not_mem_nil⟩ fun _ => by decide

end Path

namespace Endpoint

theorem length_ofText_path_le (side : Text) : (ofText side).path.length ≤ side.length := by
  unfold ofText Path.splitType
  cases hsuffix : Path.typeSuffix? side with
  | none => simp
  | some cut =>
    obtain ⟨path, type⟩ := cut
    have hside := (Path.typeSuffix?_eq_some hsuffix).1
    simp only [Option.getD_some]
    rw [hside, List.length_append]
    omega

/-- A side that is not written as it was read ends in a mark without a type. -/
theorem ofText_cases (side : Text) :
    (∃ path : Path, side = path ++ ['@'] ∧ path.getLast? ≠ some '.' ∧ ofText side = ⟨path, []⟩) ∨
    ((ofText side).text = side ∧
      ∀ path : Path, side = path ++ ['@'] → path.getLast? = some '.') := by
  by_cases hmark : ∃ path : Path, side = path ++ ['@'] ∧ path.getLast? ≠ some '.'
  · obtain ⟨path, rfl, hdot⟩ := hmark
    refine .inl ⟨path, rfl, hdot, ?_⟩
    simp [ofText, Path.splitType, Path.typeSuffix?_concat hdot]
  · push Not at hmark
    refine .inr ⟨?_, hmark⟩
    cases hsuffix : Path.typeSuffix? side with
    | none => simp [ofText, Path.splitType, hsuffix, text]
    | some cut =>
      obtain ⟨path, type⟩ := cut
      obtain ⟨hside, hdot⟩ := Path.typeSuffix?_eq_some hsuffix
      have htype : type ≠ [] := by
        rintro rfl
        exact hdot (hmark path hside)
      simp only [ofText, Path.splitType, hsuffix, text, Option.getD_some]
      rw [hside, if_neg (by simpa using htype)]

/-- A side that ends in a mark without a type, and that reads as something else
without the mark: what is left has a type suffix, or it is at the end of the line
and ends in a blank. -/
def IsFrail (isTarget : Bool) (side : Text) : Prop :=
  ∃ path : Path, side = path ++ ['@'] ∧ path.getLast? ≠ some '.' ∧
    ((Path.typeSuffix? path).isSome = true ∨
      isTarget = true ∧ path.getLast?.any isBlank = true)

theorem ofText_eq_self_iff (path : Path) :
    ofText path = ⟨path, []⟩ ↔ Path.typeSuffix? path = none := by
  constructor
  · intro h
    cases hsuffix : Path.typeSuffix? path with
    | none => rfl
    | some cut =>
      obtain ⟨before, type⟩ := cut
      have hlength := congrArg List.length (Path.typeSuffix?_eq_some hsuffix).1
      simp only [ofText, Path.splitType, hsuffix, Option.getD_some, mk.injEq] at h
      rw [h.1, List.length_append, List.length_cons] at hlength
      omega
  · intro h
    simp [ofText, Path.splitType, h]

/-- What is read from a path without the blanks at its end. -/
theorem ofText_trimEnd_eq_iff (path : Path) :
    ofText (Text.trimEnd isBlank path) = ⟨path, []⟩ ↔
      Path.typeSuffix? path = none ∧ ∀ c ∈ path.getLast?, isBlank c = false := by
  rw [← ofText_eq_self_iff, ← Text.trimEnd_eq_self_iff]
  constructor
  · intro h
    -- no more is read than there is, so nothing was trimmed
    have hlength := length_ofText_path_le (Text.trimEnd isBlank path)
    rw [h] at hlength
    have htrim := (Text.isPrefix_trimEnd isBlank path).eq_of_length_le hlength
    rw [htrim] at h
    exact ⟨h, htrim⟩
  · rintro ⟨hread, htrim⟩
    rw [htrim, hread]

theorem isFrail_concat_iff {isTarget : Bool} {path : Path} (hdot : path.getLast? ≠ some '.') :
    IsFrail isTarget (path ++ ['@']) ↔ (Path.typeSuffix? path).isSome = true ∨
      isTarget = true ∧ path.getLast?.any isBlank = true := by
  constructor
  · rintro ⟨other, hother, -, hlost⟩
    obtain rfl : path = other := List.append_cancel_right hother
    exact hlost
  · intro hlost
    exact ⟨path, rfl, hdot, hlost⟩

instance (isTarget : Bool) (side : Text) : Decidable (IsFrail isTarget side) :=
  decidable_of_iff (side = side.dropLast ++ ['@'] ∧ side.dropLast.getLast? ≠ some '.' ∧
      ((Path.typeSuffix? side.dropLast).isSome = true ∨
        isTarget = true ∧ side.dropLast.getLast?.any isBlank = true))
    ⟨fun ⟨hside, hlost⟩ => ⟨side.dropLast, hside, hlost⟩, by
      rintro ⟨path, rfl, hlost⟩
      rw [List.dropLast_concat]
      exact ⟨rfl, hlost⟩⟩

theorem not_isFrail {isTarget : Bool} {side : Text}
    (h : ∀ path : Path, side = path ++ ['@'] → path.getLast? = some '.') :
    ¬ IsFrail isTarget side := by
  rintro ⟨path, hside, hdot, -⟩
  exact hdot (h path hside)

/-- A source is read again as it was unless it is frail. -/
theorem ofText_text_iff (side : Text) :
    ofText (ofText side).text = ofText side ↔ ¬ IsFrail false side := by
  rcases ofText_cases side with ⟨path, rfl, hdot, hread⟩ | ⟨hsame, hmark⟩
  · have hwritten : (ofText (path ++ ['@'])).text = path := by rw [hread]; rfl
    rw [hwritten, hread, ofText_eq_self_iff, isFrail_concat_iff hdot]
    simp
  · rw [hsame]
    exact iff_of_true rfl (not_isFrail hmark)

/-- A target stands at the end of its line, where blanks are trimmed.  It is read
again as it was unless it is frail. -/
theorem ofText_trimEnd_text_iff {side : Text} (h : ∀ c ∈ side.getLast?, isBlank c = false) :
    ofText (Text.trimEnd isBlank (ofText side).text) = ofText side ↔ ¬ IsFrail true side := by
  rcases ofText_cases side with ⟨path, rfl, hdot, hread⟩ | ⟨hsame, hmark⟩
  · have hwritten : (ofText (path ++ ['@'])).text = path := by rw [hread]; rfl
    rw [hwritten, hread, ofText_trimEnd_eq_iff, isFrail_concat_iff hdot]
    simp [Option.any_eq_false]
  · rw [hsame, Text.trimEnd_eq_self_iff.2 h]
    exact iff_of_true rfl (not_isFrail hmark)

theorem text_ofText {side : Text} (h : side.getLast? ≠ some '@') : (ofText side).text = side := by
  rcases ofText_cases side with ⟨path, rfl, -, -⟩ | ⟨hsame, -⟩
  · simp at h
  · exact hsame

/-- Nothing is written that was not read. -/
theorem isPrefix_text_ofText (side : Text) : (ofText side).text <+: side := by
  rcases ofText_cases side with ⟨path, rfl, -, hread⟩ | ⟨hsame, -⟩
  · rw [hread]
    exact List.prefix_append path ['@']
  · rw [hsame]

end Endpoint

/-! ## Rules -/

namespace Rule

/-- A line is cut at its first colon, and a line without one is both of its sides. -/
theorem sides_cases (line : Text) :
    ':' ∉ line ∧ sides line = (line, line) ∨
    ∃ source target, ':' ∉ source ∧ line = source ++ ':' :: target ∧
      sides line = (source, target) := by
  by_cases hcolon : ':' ∈ line
  · obtain ⟨source, target, rfl, hsource⟩ := List.eq_append_cons_of_mem hcolon
    exact .inr ⟨source, target, hsource, rfl, by rw [sides, Text.cutAt?_append hsource]; rfl⟩
  · exact .inl ⟨hcolon, by rw [sides, Text.cutAt?_of_notMem hcolon]; rfl⟩

/-- The sides of a line: only the target may hold a colon, and there are blanks
neither before the source nor behind the target. -/
structure AreSides (source target : Text) : Prop where
  cut : ':' ∉ source
  head : ∀ c ∈ source.head?, isBlank c = false
  last : ∀ c ∈ target.getLast?, isBlank c = false
  unbroken : '\n' ∉ source ∧ '\n' ∉ target

theorem IsLine.areSides {line : Text} (h : IsLine line) :
    AreSides (sides line).1 (sides line).2 := by
  rcases sides_cases line with ⟨hcolon, hsides⟩ | ⟨source, target, hcolon, rfl, hsides⟩
  · rw [hsides]
    exact ⟨hcolon, h.head, h.last, h.unbroken, h.unbroken⟩
  · have hbreak := h.unbroken
    rw [List.mem_append, List.mem_cons, not_or, not_or] at hbreak
    rw [hsides]
    refine ⟨hcolon, fun c hc => h.head c ?_, fun c hc => h.last c ?_, hbreak.1, hbreak.2.2⟩
    · have hc : source.head? = some c := hc
      simp [List.head?_append, hc]
    · have hc : target.getLast? = some c := hc
      simp [List.getLast?_append, List.getLast?_cons, hc]

section

variable {source target : Text} (h : AreSides source target)

include h

/-- The line that is written for two sides, as it is read again. -/
theorem AreSides.trim_text :
    Text.trim (Rule.text ⟨.ofText source, .ofText target⟩) =
      (Endpoint.ofText source).text ++
        ':' :: Text.trimEnd isBlank (Endpoint.ofText target).text := by
  have hstart : Text.trimStart isBlank
      ((Endpoint.ofText source).text ++ ':' :: (Endpoint.ofText target).text) =
      (Endpoint.ofText source).text ++ ':' :: (Endpoint.ofText target).text := by
    apply Text.trimStart_eq_self
    intro c hc
    obtain ⟨lost, hlost⟩ := Endpoint.isPrefix_text_ofText source
    cases hwritten : (Endpoint.ofText source).text with
    | nil =>
      rw [hwritten] at hc
      obtain rfl : ':' = c := by simpa using hc
      decide
    | cons d rest =>
      rw [hwritten] at hc hlost
      obtain rfl : d = c := by simpa using hc
      exact h.head d (by simp [← hlost])
  rw [Text.trim, Text.trimBoth, Rule.text, hstart]
  exact Text.trimEnd_append_cons (by decide) _ _

/-- Two sides are read again as they were unless one of them is frail. -/
theorem AreSides.ofLine_trim_text_iff :
    ofLine (Text.trim (Rule.text ⟨.ofText source, .ofText target⟩)) =
        ⟨.ofText source, .ofText target⟩ ↔
      ¬ Endpoint.IsFrail false source ∧ ¬ Endpoint.IsFrail true target := by
  have hcolon : ':' ∉ (Endpoint.ofText source).text :=
    fun hmem => h.cut ((Endpoint.isPrefix_text_ofText source).mem hmem)
  have hsides : sides (Text.trim (Rule.text ⟨.ofText source, .ofText target⟩)) =
      ((Endpoint.ofText source).text, Text.trimEnd isBlank (Endpoint.ofText target).text) := by
    rw [h.trim_text, sides, Text.cutAt?_append hcolon]
    rfl
  rw [ofLine, hsides, ← Endpoint.ofText_text_iff, ← Endpoint.ofText_trimEnd_text_iff h.last]
  exact mk.injEq .. ▸ Iff.rfl

theorem AreSides.unbroken_text : '\n' ∉ Rule.text ⟨.ofText source, .ofText target⟩ := by
  intro hmem
  rcases List.mem_append.1 hmem with hsource | hrest
  · exact h.unbroken.1 ((Endpoint.isPrefix_text_ofText source).mem hsource)
  · rcases List.mem_cons.1 hrest with hcolon | htarget
    · exact absurd hcolon (by decide)
    · exact h.unbroken.2 ((Endpoint.isPrefix_text_ofText target).mem htarget)

end

end Rule

namespace RuleSet

/-- The lines that are found in what is written for lines. -/
theorem ruleLines_text {lines : List Text} (h : ∀ line ∈ lines, Rule.IsLine line) :
    ruleLines (text (lines.map Rule.ofLine)) =
      lines.map fun line => (Rule.ofLine line).text.trim := by
  have hunbroken : ∀ piece ∈ lines.map fun line => (Rule.ofLine line).text, '\n' ∉ piece := by
    intro piece hpiece
    obtain ⟨line, hline, rfl⟩ := List.mem_map.1 hpiece
    exact (h line hline).areSides.unbroken_text
  have hcut : Text.lines (text (lines.map Rule.ofLine)) =
      lines.map fun line => Text.chopReturn (Rule.ofLine line).text := by
    have hlines := Text.lines_flatMap hunbroken
    rw [List.flatMap_map, List.map_map] at hlines
    rw [text, List.flatMap_map]
    exact hlines
  rw [ruleLines, hcut, List.map_map]
  simp only [Function.comp_def, Text.trim_chopReturn]
  rw [List.filter_eq_self]
  intro line hline
  obtain ⟨line, hmem, rfl⟩ := List.mem_map.1 hline
  have htrim : (Rule.ofLine line).text.trim ≠ [] := by
    rw [Rule.ofLine, (h line hmem).areSides.trim_text]
    simp
  simpa using htrim

/-- Writing the rules of a text and reading them again gives the rules back exactly if
no side of a line is frail.  If no side ends in a mark, every line is written as its
two sides. -/
theorem ofText_text_eq_iff (text : Text) :
    (ofText (ofText text).text = ofText text ↔
      ∀ line ∈ ruleLines text, ¬ Endpoint.IsFrail false (Rule.sides line).1 ∧
        ¬ Endpoint.IsFrail true (Rule.sides line).2) ∧
    ((∀ line ∈ ruleLines text, (Rule.sides line).1.getLast? ≠ some '@' ∧
        (Rule.sides line).2.getLast? ≠ some '@') →
      (ofText text).text = (ruleLines text).flatMap fun line =>
        (Rule.sides line).1 ++ ':' :: (Rule.sides line).2 ++ ['\n']) := by
  have hlines : ∀ line ∈ ruleLines text, Rule.IsLine line :=
    fun line hline => isLine_of_mem_ruleLines hline
  constructor
  · rw [ofText.eq_1 text, ofText, ruleLines_text hlines, List.map_map, List.map_inj_left]
    refine forall₂_congr fun line hline => ?_
    exact (hlines line hline).areSides.ofLine_trim_text_iff
  · intro hmarks
    rw [ofText, RuleSet.text, List.flatMap_map]
    apply List.flatMap_congr
    intro line hline
    obtain ⟨hsource, htarget⟩ := hmarks line hline
    rw [Rule.ofLine, Rule.text, Endpoint.text_ofText hsource, Endpoint.text_ofText htarget]

/-- Lines with blanks, marks and line ends of all kinds, and no side that is frail. -/
def sturdyLines : Text :=
  " a.@tonum : b @int\r\n\n @\nc @:d e\r".toList

/-- A source with a second mark, and a target that ends in a blank and a mark. -/
def frailLines : List Text :=
  ["c@d@:e".toList, "f:g @".toList]

theorem ofText_text_eq_iff_lines :
    ofText (ofText sturdyLines).text = ofText sturdyLines ∧
    (∀ line ∈ frailLines, ofText (ofText line).text ≠ ofText line) ∧
    (ofText "x: y@z\n\nw".toList).text = "x: y@z\nw:w\n".toList := by
  refine ⟨(ofText_text_eq_iff sturdyLines).1.2 (by decide +kernel), ?_,
    ((ofText_text_eq_iff "x: y@z\n\nw".toList).2 (by decide +kernel)).trans (by decide +kernel)⟩
  intro line hline hsame
  have hfrail : ∀ line ∈ frailLines, ¬ ∀ rule ∈ ruleLines line,
      ¬ Endpoint.IsFrail false (Rule.sides rule).1 ∧
        ¬ Endpoint.IsFrail true (Rule.sides rule).2 := by decide +kernel
  exact hfrail line hline ((ofText_text_eq_iff line).1.1 hsame)

end RuleSet

end Reshape
