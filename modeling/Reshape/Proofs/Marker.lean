import Reshape.Proofs.Reading

/-!
# Markers in paths

The marker of a direction is looked for as text, with a dot before it, and an occurrence counts
if a dot, an `@` or nothing follows.  No token has a dot, so each occurrence begins a segment of
the path, and it counts if the segment is the token or goes on with an `@`.  Hence the search for
text finds the same as a search among the segments.

* `Direction.Marks`: the segments that count.  `cutMarker?_of_unmarked` and
  `cutMarker?_of_marks` are the steps of the search, segment by segment.
* `Direction.cutMarker?_flatMap`: the search passes over all segments that do not count,
  near misses such as `inputs` among them.
* `Path.MarkedBy`: the segments around the first one that counts.  `Path.locateAs?_of_markedBy`
  and `Path.locateAs?_eq_none_iff` say what the search for one direction finds, and
  `Path.locate?_eq_some_iff` what the search for both finds.
-/

namespace Reshape

namespace Text

theorem after?_eq_some {start text rest : Text} (h : after? start text = some rest) :
    text = start ++ rest := by
  induction start generalizing text with
  | nil => simpa [after?, List.isPrefixOf?] using h
  | cons c start ih =>
    cases text with
    | nil => simp [after?, List.isPrefixOf?] at h
    | cons d text =>
      simp only [after?, List.isPrefixOf?, beq_iff_eq] at h
      split at h
      · rename_i hc
        subst hc
        rw [List.cons_append, ih h]
      · simp at h

/-- A path with a dot before it is its segments with a dot before each. -/
theorem dot_cons_eq_flatMap (path : Path) :
    '.' :: path = (Path.segments path).flatMap ('.' :: ·) := by
  obtain ⟨first, rest, hsegments⟩ := List.exists_cons_of_ne_nil (Path.segments_ne_nil path)
  have hjoin := Path.ofSegments_segments path
  rw [hsegments, Path.ofSegments, join_cons_eq_flatMap] at hjoin
  rw [hsegments, List.flatMap_cons, ← hjoin, List.cons_append]

end Text

theorem Path.ofSegments_cons_eq_flatMap (first : Text) (others : List Text) :
    ofSegments (first :: others) = first ++ others.flatMap ('.' :: ·) :=
  Text.join_cons_eq_flatMap '.' first others

namespace Direction

/-! ## Segments that mark a direction -/

/-- A segment marks a direction if it is the token, or if a type suffix follows the token. -/
def Marks (direction : Direction) (segment : Text) : Prop :=
  segment = direction.token ∨ direction.token ++ ['@'] <+: segment

instance (direction : Direction) (segment : Text) : Decidable (direction.Marks segment) :=
  inferInstanceAs (Decidable (_ ∨ _))

theorem isPlain_token (direction : Direction) : direction.token.isPlain = true := by
  cases direction <;> decide

theorem notMem_token (direction : Direction) : '.' ∉ direction.token :=
  Text.notMem_of_isPlain direction.isPlain_token (by decide)

variable {direction : Direction} {segment suffix : Text}

theorem Marks.exists_suffix (h : direction.Marks segment) :
    ∃ suffix, segment = direction.token ++ suffix := by
  rcases h with rfl | ⟨more, rfl⟩
  · exact ⟨[], by simp⟩
  · exact ⟨'@' :: more, by simp⟩

theorem marks_append_iff :
    direction.Marks (direction.token ++ suffix) ↔ suffix = [] ∨ suffix.head? = some '@' := by
  rw [Marks, List.append_right_eq_self, List.prefix_append_right_inj]
  refine or_congr_right ?_
  cases suffix with
  | nil => simp
  | cons c suffix => simp [eq_comm]

theorem not_marks_of_isSegment (h : segment.IsSegment) (hne : segment ≠ direction.token) :
    ¬ direction.Marks segment := by
  rintro (he | hmark)
  · exact hne he
  · exact h.2 (hmark.subset (by simp))

/-! ## The search, segment by segment -/

/-- The marker is not found in a text without dots. -/
theorem cutMarker?_append_of_free {token text : Text} (h : '.' ∉ text) (rest : Text) :
    cutMarker? ('.' :: token) (text ++ rest) =
      (cutMarker? ('.' :: token) rest).map fun cut => (text ++ cut.1, cut.2) := by
  induction text with
  | nil => simp
  | cons c text ih =>
    have hc : ('.' == c) = false := beq_false_of_ne fun he => h (List.mem_cons.2 (.inl he))
    have hrest : '.' ∉ text := fun hm => h (by simp [hm])
    have hafter : Text.after? ('.' :: token) (c :: (text ++ rest)) = none := by
      simp [Text.after?, List.isPrefixOf?, hc]
    rw [List.cons_append, cutMarker?, hafter, ih hrest, Option.map_map]
    rfl

/-- What may follow a whole segment: nothing, or a dot. -/
def FollowsSegment (rest : Text) : Prop :=
  rest = [] ∨ ∃ more, rest = '.' :: more

theorem followsSegment_flatMap (segments : List Text) :
    FollowsSegment (segments.flatMap ('.' :: ·)) := by
  cases segments with
  | nil => exact .inl rfl
  | cons first segments => exact .inr ⟨_, rfl⟩

theorem followsSegment_append {left right : Text} (hleft : FollowsSegment left)
    (hright : FollowsSegment right) : FollowsSegment (left ++ right) := by
  rcases hleft with rfl | ⟨more, rfl⟩
  · exact hright
  · exact .inr ⟨more ++ right, rfl⟩

variable {rest : Text}

/-- The marker does not end where it stands in the text of a segment that does not count. -/
theorem endsSegment_of_unmarked (hdot : '.' ∉ segment) (h : ¬ direction.Marks segment)
    (hrest : FollowsSegment rest) {tail : Text}
    (hafter : Text.after? direction.marker ('.' :: (segment ++ rest)) = some tail) :
    endsSegment tail = false := by
  have hne : segment ≠ direction.token := fun he => h (.inl he)
  have htext : segment ++ rest = direction.token ++ tail := by
    simpa [marker] using Text.after?_eq_some hafter
  rcases List.append_eq_append_iff.1 htext with ⟨more, htoken, hrest'⟩ | ⟨more, hsegment, htail⟩
  · -- the token would reach over the end of the segment
    cases more with
    | nil => exact absurd (by simpa using htoken.symm) hne
    | cons c more =>
      rcases hrest with rfl | ⟨others, rfl⟩
      · simp at hrest'
      · obtain rfl : '.' = c := by simpa using congrArg List.head? hrest'
        exact absurd (by simp [htoken]) direction.notMem_token
  · cases more with
    | nil => exact absurd (by simpa using hsegment) hne
    | cons c more =>
      have hc : c ≠ '.' := fun he => hdot (by simp [hsegment, he])
      have hat : c ≠ '@' := fun he => h (.inr ⟨more, by simp [hsegment, he]⟩)
      simp [htail, endsSegment, hc, hat]

/-- The search passes over a segment that does not count. -/
theorem cutMarker?_of_unmarked (hdot : '.' ∉ segment) (h : ¬ direction.Marks segment)
    (hrest : FollowsSegment rest) :
    cutMarker? direction.marker ('.' :: (segment ++ rest)) =
      (cutMarker? direction.marker rest).map fun cut => ('.' :: segment ++ cut.1, cut.2) := by
  -- the marker begins with a dot, so behind the dot of the segment it is not found in the segment
  have hfree : cutMarker? direction.marker (segment ++ rest) =
      (cutMarker? direction.marker rest).map fun cut => (segment ++ cut.1, cut.2) :=
    cutMarker?_append_of_free hdot rest
  rw [cutMarker?]
  split
  · rename_i tail hafter
    rw [endsSegment_of_unmarked hdot h hrest hafter, hfree, Option.map_map]
    rfl
  · rw [hfree, Option.map_map]
    rfl

/-- The search stops at a segment that counts. -/
theorem cutMarker?_of_marks (h : direction.Marks (direction.token ++ suffix))
    (hrest : FollowsSegment rest) :
    cutMarker? direction.marker ('.' :: (direction.token ++ suffix ++ rest)) =
      some ([], suffix ++ rest) := by
  have hafter : Text.after? direction.marker ('.' :: (direction.token ++ suffix ++ rest)) =
      some (suffix ++ rest) := by
    rw [List.append_assoc]
    exact Text.after?_append direction.marker (suffix ++ rest)
  have hends : endsSegment (suffix ++ rest) = true := by
    rcases marks_append_iff.1 h with rfl | hat
    · rcases hrest with rfl | ⟨more, rfl⟩ <;> rfl
    · obtain ⟨more, rfl⟩ := List.head?_eq_some_iff.1 hat
      rfl
  rw [cutMarker?, hafter]
  exact if_pos hends

/-- The search passes over any number of segments that do not count. -/
theorem cutMarker?_flatMap {segments : List Text} (hdots : ∀ segment ∈ segments, '.' ∉ segment)
    (h : ∀ segment ∈ segments, ¬ direction.Marks segment) (hrest : FollowsSegment rest) :
    cutMarker? direction.marker (segments.flatMap ('.' :: ·) ++ rest) =
      (cutMarker? direction.marker rest).map fun cut =>
        (segments.flatMap ('.' :: ·) ++ cut.1, cut.2) := by
  induction segments with
  | nil => simp
  | cons segment segments ih =>
    rw [List.flatMap_cons, List.append_assoc, List.cons_append,
      cutMarker?_of_unmarked (hdots segment (by simp)) (h segment (by simp))
        (followsSegment_append (followsSegment_flatMap segments) hrest),
      ih (fun s hs => hdots s (by simp [hs])) (fun s hs => h s (by simp [hs])), Option.map_map]
    simp [Function.comp_def]

end Direction

/-! ## Paths -/

namespace Path

/-- The segments of a path around the first one, other than the first of the path, that marks a
direction. -/
structure MarkedBy (direction : Direction) (path : Path) (before : List Text) (segment : Text)
    (after : List Text) : Prop where
  segments_eq : path.segments = before ++ segment :: after
  before_ne_nil : before ≠ []
  marks : direction.Marks segment
  unmarked : ∀ other ∈ before.tail, ¬ direction.Marks other

variable {direction : Direction} {path : Path} {before after : List Text} {suffix : Text}

theorem exists_markedBy {segment : Text} (hsegment : segment ∈ path.segments.tail)
    (h : direction.Marks segment) :
    ∃ before suffix after, MarkedBy direction path before (direction.token ++ suffix) after := by
  obtain ⟨first, others, hsegments⟩ := List.exists_cons_of_ne_nil (segments_ne_nil path)
  rw [hsegments, List.tail_cons] at hsegment
  have hfound : (others.find? (direction.Marks ·)).isSome = true :=
    List.find?_isSome.2 ⟨segment, hsegment, by simpa using h⟩
  obtain ⟨marked, hmarked⟩ := Option.isSome_iff_exists.1 hfound
  obtain ⟨hmarks, before, after, rfl, hbefore⟩ := List.find?_eq_some_iff_append.1 hmarked
  have hmarks : direction.Marks marked := by simpa using hmarks
  obtain ⟨suffix, rfl⟩ := hmarks.exists_suffix
  exact ⟨first :: before, suffix, after, hsegments, by simp, hmarks,
    fun other hother => by simpa using hbefore other hother⟩

/-- The path is cut at the first segment that counts. -/
theorem locateAs?_of_markedBy
    (h : MarkedBy direction path before (direction.token ++ suffix) after) :
    locateAs? direction path =
      some ⟨direction, ofSegments before, ofSegments (suffix :: after)⟩ := by
  obtain ⟨hsegments, hne, hmarks, hunmarked⟩ := h
  obtain ⟨first, between, rfl⟩ := List.exists_cons_of_ne_nil hne
  have hdots : ∀ segment ∈ first :: between, '.' ∉ segment := by
    intro segment hsegment
    have hmem : segment ∈ path.segments := hsegments ▸ List.mem_append_left _ hsegment
    exact notMem_of_mem_segments hmem
  have hpath : path = first ++ (between.flatMap ('.' :: ·) ++
      '.' :: (direction.token ++ suffix ++ after.flatMap ('.' :: ·))) := by
    rw [← ofSegments_segments path, hsegments, List.cons_append, ofSegments_cons_eq_flatMap,
      List.flatMap_append, List.flatMap_cons, List.cons_append]
  have hcut : Direction.cutMarker? direction.marker path =
      some (first ++ between.flatMap ('.' :: ·), suffix ++ after.flatMap ('.' :: ·)) := by
    rw [hpath, Direction.marker, Direction.cutMarker?_append_of_free (hdots first (by simp)),
      ← Direction.marker, Direction.cutMarker?_flatMap
        (fun segment hsegment => hdots segment (List.mem_cons_of_mem first hsegment)) hunmarked
        (.inr ⟨_, rfl⟩),
      Direction.cutMarker?_of_marks hmarks (Direction.followsSegment_flatMap after)]
    simp
  rw [locateAs?, hcut, ofSegments_cons_eq_flatMap, ofSegments_cons_eq_flatMap]
  rfl

theorem locateAs?_eq_none_iff :
    locateAs? direction path = none ↔
      ∀ segment ∈ path.segments.tail, ¬ direction.Marks segment := by
  constructor
  · intro hnone segment hsegment hmarks
    obtain ⟨before, suffix, after, h⟩ := exists_markedBy hsegment hmarks
    rw [locateAs?_of_markedBy h] at hnone
    exact absurd hnone (by simp)
  · intro hunmarked
    obtain ⟨first, others, hsegments⟩ := List.exists_cons_of_ne_nil (segments_ne_nil path)
    rw [hsegments, List.tail_cons] at hunmarked
    have hdots : ∀ segment ∈ first :: others, '.' ∉ segment := by
      rw [← hsegments]
      exact fun _ => notMem_of_mem_segments
    have hpath : path = first ++ (others.flatMap ('.' :: ·) ++ []) := by
      rw [← ofSegments_segments path, hsegments, ofSegments_cons_eq_flatMap, List.append_nil]
    rw [locateAs?, hpath, Direction.marker,
      Direction.cutMarker?_append_of_free (hdots first (by simp)), ← Direction.marker,
      Direction.cutMarker?_flatMap
        (fun segment hsegment => hdots segment (List.mem_cons_of_mem first hsegment)) hunmarked
        (.inl rfl)]
    rfl

/-- What the search finds, and that it looks for inputs first. -/
theorem locate?_eq_some_iff {located : Located} :
    path.locate? = some located ↔
      (∃ before suffix after,
        MarkedBy located.direction path before (located.direction.token ++ suffix) after ∧
          located.before = ofSegments before ∧ located.after = ofSegments (suffix :: after)) ∧
        (located.direction = .output →
          ∀ segment ∈ path.segments.tail, ¬ Direction.input.Marks segment) := by
  have hfound : ∀ direction, locateAs? direction path = some located ↔
      located.direction = direction ∧ ∃ before suffix after,
        MarkedBy direction path before (direction.token ++ suffix) after ∧
          located.before = ofSegments before ∧ located.after = ofSegments (suffix :: after) := by
    intro direction
    constructor
    · intro h
      have hmarked : ¬ ∀ segment ∈ path.segments.tail, ¬ direction.Marks segment := by
        rw [← locateAs?_eq_none_iff, h]
        simp
      push Not at hmarked
      obtain ⟨segment, hsegment, hmarks⟩ := hmarked
      obtain ⟨before, suffix, after, hby⟩ := exists_markedBy hsegment hmarks
      rw [locateAs?_of_markedBy hby, Option.some.injEq] at h
      subst h
      exact ⟨rfl, before, suffix, after, hby, rfl, rfl⟩
    · obtain ⟨found, start, rest⟩ := located
      rintro ⟨rfl, before, suffix, after, hby, rfl, rfl⟩
      exact locateAs?_of_markedBy hby
  rw [locate?, Option.or_eq_some_iff, hfound, hfound, locateAs?_eq_none_iff]
  cases hdirection : located.direction <;> simp [and_comm]

theorem locate?_eq_none_iff :
    path.locate? = none ↔
      ∀ direction : Direction, ∀ segment ∈ path.segments.tail, ¬ direction.Marks segment := by
  rw [locate?, Option.or_eq_none_iff, locateAs?_eq_none_iff, locateAs?_eq_none_iff]
  constructor
  · rintro ⟨hinput, houtput⟩ direction
    cases direction with
    | input => exact hinput
    | output => exact houtput
  · intro h
    exact ⟨h .input, h .output⟩

end Path

end Reshape
