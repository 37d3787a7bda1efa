import Reshape.Proofs.ParameterForm

/-!
# Where a path is cut

The search for a marker gives the number of bytes before it, and the path is cut there.  This
module says that the cut stands between two segments, and what those who cut a path get.

* Bytes.  `Text.bytes` are the bytes of a text, and `Text.take_bytes` and `Text.drop_bytes` say
  that a cut by bytes is a cut by characters.
* Dots.  Trimming the dots of a path drops the empty segments around it,
  `Path.trimDots_ofSegments_eq`, so what is left are whole segments.
* Parameters.  `Parameter.exists_ofPath_of_markedBy` tells the parts of a parameter by the
  segments around the marker.

`Path.locate?_by_segments` puts them together.
-/

namespace Reshape

/-! ## Bytes -/

namespace Text

/-- The bytes of a text in UTF-8. -/
def bytes (text : Text) : List UInt8 :=
  text.flatMap String.utf8EncodeChar

theorem bytes_append (left right : Text) : bytes (left ++ right) = bytes left ++ bytes right :=
  List.flatMap_append

theorem length_bytes (text : Text) : text.bytes.length = text.byteSize := by
  induction text with
  | nil => rfl
  | cons c rest ih =>
    calc (bytes (c :: rest)).length
        = (String.utf8EncodeChar c).length + (bytes rest).length := List.length_append
      _ = c.utf8Size + byteSize rest := by rw [String.length_utf8EncodeChar, ih]

theorem take_bytes (left right : Text) :
    (bytes (left ++ right)).take left.byteSize = left.bytes := by
  rw [bytes_append]
  exact List.take_left' (length_bytes left)

theorem drop_bytes (left right : Text) :
    (bytes (left ++ right)).drop left.byteSize = right.bytes := by
  rw [bytes_append]
  exact List.drop_left' (length_bytes left)

end Text

/-! ## Dots -/

namespace Path

/-- Segments without the empty ones around them. -/
def trimEmpty (segments : List Text) : List Text :=
  (segments.dropWhile List.isEmpty).rdropWhile List.isEmpty

theorem trimStart_ofSegments {segments : List Text} (h : ∀ segment ∈ segments, '.' ∉ segment) :
    Text.trimStart (· == '.') (ofSegments segments) =
      ofSegments (segments.dropWhile List.isEmpty) := by
  induction segments with
  | nil => rfl
  | cons first others ih =>
    have hothers := ih fun segment hsegment => h segment (List.mem_cons_of_mem first hsegment)
    by_cases hfirst : first = []
    · subst hfirst
      rw [List.dropWhile_cons_of_pos rfl, ← hothers]
      by_cases hnil : others = []
      · subst hnil
        rfl
      · rw [ofSegments_cons [] hnil]
        exact List.dropWhile_cons_of_pos (by decide)
    · rw [List.dropWhile_cons_of_neg (by simpa using hfirst)]
      apply Text.trimStart_eq_self
      intro c hc
      apply beq_false_of_ne
      rintro rfl
      exact head?_ofSegments_cons hfirst (h first List.mem_cons_self) others hc

theorem trimEnd_ofSegments {segments : List Text} (h : ∀ segment ∈ segments, '.' ∉ segment) :
    Text.trimEnd (· == '.') (ofSegments segments) =
      ofSegments (segments.rdropWhile List.isEmpty) := by
  -- from the end, since this is where the dots are trimmed
  induction segments using List.reverseRecOn with
  | nil => rfl
  | append_singleton init last ih =>
    have hinit := ih fun segment hsegment => h segment (List.mem_append_left _ hsegment)
    by_cases hlast : last = []
    · subst hlast
      rw [List.rdropWhile_concat_pos _ _ _ rfl, ← hinit]
      by_cases hnil : init = []
      · subst hnil
        rfl
      · rw [ofSegments_concat hnil]
        exact List.rdropWhile_concat_pos _ _ _ (by decide)
    · rw [List.rdropWhile_concat_neg _ _ _ (by simpa using hlast), Text.trimEnd_eq_self_iff]
      intro c hc
      apply beq_false_of_ne
      rintro rfl
      exact getLast?_ofSegments_concat hlast (h last (by simp)) init hc

/-- Trimming dots drops the empty segments around a path. -/
theorem trimDots_ofSegments_eq {segments : List Text} (h : ∀ segment ∈ segments, '.' ∉ segment) :
    trimDots (ofSegments segments) = ofSegments (trimEmpty segments) := by
  rw [trimDots, Text.trimBoth, trimStart_ofSegments h, trimEnd_ofSegments, trimEmpty]
  exact fun segment hsegment => h segment (List.dropWhile_subset _ hsegment)

theorem mem_of_mem_trimEmpty {segments : List Text} {segment : Text}
    (h : segment ∈ trimEmpty segments) : segment ∈ segments :=
  List.dropWhile_subset _ ((List.rdropWhile_prefix _ _).subset h)

variable {direction : Direction} {path : Path} {before after : List Text} {suffix : Text}

/-- The segments around a marker are those of the path, so they have no dots. -/
theorem MarkedBy.notMem (h : MarkedBy direction path before (direction.token ++ suffix) after) :
    (∀ segment ∈ before, '.' ∉ segment) ∧ ∀ segment ∈ suffix :: after, '.' ∉ segment := by
  have hdots : ∀ segment ∈ before ++ (direction.token ++ suffix) :: after, '.' ∉ segment := by
    rw [← h.segments_eq]
    exact fun _ => notMem_of_mem_segments
  refine ⟨fun segment hsegment => hdots segment (by simp [hsegment]), fun segment hsegment => ?_⟩
  rcases List.mem_cons.1 hsegment with rfl | hafter
  · exact fun hdot => hdots _ (List.mem_append_right _ List.mem_cons_self) (by simp [hdot])
  · exact hdots segment (by simp [hafter])

/-- The path is what stands before the marker, the dot, and what stands from the marker on. -/
theorem MarkedBy.path_eq {segment : Text} (h : MarkedBy direction path before segment after) :
    path = ofSegments before ++ '.' :: ofSegments (segment :: after) := by
  obtain ⟨first, between, rfl⟩ := List.exists_cons_of_ne_nil h.before_ne_nil
  rw [← ofSegments_segments path, h.segments_eq, List.cons_append, ofSegments_cons_eq_flatMap,
    ofSegments_cons_eq_flatMap, ofSegments_cons_eq_flatMap, List.flatMap_append, List.flatMap_cons]
  simp

end Path

/-! ## Parameters -/

namespace Parameter

/-- The name that the first segment of an argument gives: a `#` at its end marks an array. -/
def bareName (segment : Text) : Text :=
  if segment.getLast? = some '#' then segment.dropLast else segment

theorem nameAndType_fst {segments : List Text} (h : ∀ segment ∈ segments, '.' ∉ segment)
    (type : Text) :
    (nameAndType (Path.ofSegments segments) type).1 = bareName (segments.head?.getD []) := by
  cases segments with
  | nil => rfl
  | cons first others =>
    rw [nameAndType_ofSegments (h first List.mem_cons_self), List.head?_cons, Option.getD_some,
      bareName]
    split <;> rfl

theorem splitLast_eq {segments : List Text} (h : ∀ segment ∈ segments, '.' ∉ segment) :
    splitLast (Path.ofSegments segments) =
      (Path.ofSegments segments.dropLast, segments.getLast?.getD []) := by
  cases segments using List.reverseRecOn with
  | nil => rfl
  | append_singleton init last =>
    rw [splitLast_ofSegments (h last (by simp)), List.dropLast_concat, List.getLast?_concat,
      Option.getD_some]

variable {direction : Direction} {path : Path} {before after : List Text} {suffix : Text}

/-- Behind the namespace of functions stand the segments between it and the marker. -/
theorem drop_functions (hfunctions : Path.functions <+: path)
    (h : path.MarkedBy direction before (direction.token ++ suffix) after) :
    (Path.ofSegments before).drop Path.functions.length = Path.ofSegments before.tail := by
  obtain ⟨rest, rfl⟩ := hfunctions
  obtain ⟨first, between, rfl⟩ := List.exists_cons_of_ne_nil h.before_ne_nil
  have hsegments : Path.segments (Path.functions ++ rest) =
      "func".toList :: Path.segments rest := Path.segments_append_dot "func".toList rest
  -- the namespace ends in a dot, so the first segment is `func`, also if the marker comes next
  obtain rfl : first = "func".toList := by
    have heq := hsegments.symm.trans h.segments_eq
    rw [List.cons_append, List.cons.injEq] at heq
    exact heq.1.symm
  by_cases hbetween : between = []
  · subst hbetween
    rfl
  · rw [Path.ofSegments_cons _ hbetween]
    rfl

/-- The parts of a parameter are whole segments of its path, but for the `#` of an array. -/
theorem exists_ofPath_of_markedBy (hfunctions : Path.functions <+: path)
    (h : path.MarkedBy direction before (direction.token ++ suffix) after)
    (hlocate : path.locate? =
      some ⟨direction, Path.ofSegments before, Path.ofSegments (suffix :: after)⟩)
    (type : Text) :
    ∃ parameter, ofPath path type = .ok parameter ∧ parameter.direction = direction ∧
      parameter.package = Path.ofSegments (Path.trimEmpty before.tail).dropLast ∧
      parameter.function = (Path.trimEmpty before.tail).getLast?.getD [] ∧
      parameter.name = bareName ((Path.trimEmpty (suffix :: after)).head?.getD []) := by
  have hnamespace : path.hasNamespace Path.functions = true :=
    List.isPrefixOf_iff_prefix.2 hfunctions
  have htail : ∀ segment ∈ before.tail, '.' ∉ segment :=
    fun segment hsegment => h.notMem.1 segment (List.mem_of_mem_tail hsegment)
  have hidentity : splitLast (Path.trimDots ((Path.ofSegments before).drop Path.functions.length)) =
      (Path.ofSegments (Path.trimEmpty before.tail).dropLast,
        (Path.trimEmpty before.tail).getLast?.getD []) := by
    rw [drop_functions hfunctions h, Path.trimDots_ofSegments_eq htail, splitLast_eq]
    exact fun segment hsegment => htail segment (Path.mem_of_mem_trimEmpty hsegment)
  have hname : (nameAndType (Path.trimDots (Path.ofSegments (suffix :: after))) type).1 =
      bareName ((Path.trimEmpty (suffix :: after)).head?.getD []) := by
    rw [Path.trimDots_ofSegments_eq h.notMem.2, nameAndType_fst]
    exact fun segment hsegment => h.notMem.2 segment (Path.mem_of_mem_trimEmpty hsegment)
  simp only [ofPath, hnamespace, hlocate, hidentity, Bool.not_true, Bool.false_eq_true, if_false]
  exact ⟨_, rfl, rfl, rfl, rfl, hname⟩

end Parameter

/-! ## The search and the cut -/

namespace Path

variable {path : Path}

theorem splitDirection_of_markedBy {direction : Direction} {before after : List Text}
    {suffix : Text} (h : path.MarkedBy direction before (direction.token ++ suffix) after)
    (hlocate : path.locate? =
      some ⟨direction, ofSegments before, ofSegments (suffix :: after)⟩) :
    path.splitDirection =
      (ofSegments (trimEmpty before), ofSegments (trimEmpty (suffix :: after))) := by
  rw [splitDirection, hlocate]
  exact congrArg₂ Prod.mk (trimDots_ofSegments_eq h.notMem.1) (trimDots_ofSegments_eq h.notMem.2)

/-- The place that the search gives for a direction. -/
theorem map_locate?_eq_some_iff {direction : Direction} {offset : Nat} :
    (path.locate?.map fun located => (located.direction, located.before.byteSize)) =
        some (direction, offset) ↔
      (direction = .output → ∀ segment ∈ path.segments.tail, ¬ Direction.input.Marks segment) ∧
        ∃ before segment after, path.MarkedBy direction before segment after ∧
          offset = (ofSegments before).byteSize := by
  constructor
  · intro h
    obtain ⟨located, hlocate, hpair⟩ := Option.map_eq_some_iff.1 h
    obtain ⟨rfl, rfl⟩ := Prod.mk.inj hpair
    obtain ⟨⟨before, suffix, after, hby, hbefore, -⟩, hfirst⟩ := locate?_eq_some_iff.1 hlocate
    exact ⟨hfirst, before, _, after, hby, by rw [hbefore]⟩
  · rintro ⟨hfirst, before, segment, after, hby, rfl⟩
    obtain ⟨suffix, rfl⟩ := hby.marks.exists_suffix
    have hlocate : path.locate? =
        some ⟨direction, ofSegments before, ofSegments (suffix :: after)⟩ :=
      locate?_eq_some_iff.2 ⟨⟨before, suffix, after, hby, rfl, rfl⟩, hfirst⟩
    rw [hlocate]
    rfl

/-- The search for the text of a marker is a search among the segments.  It finds the first
segment, other than the first of the path, that marks an input, or if there is none the first that
marks an output, and gives the number of bytes before its dot.  At this place the bytes of the path
are cut into those of whole segments, and so is what a path or a parameter is split into. -/
theorem locate?_by_segments (path : Path) :
    (∀ offset, (path.locate?.map fun located => (located.direction, located.before.byteSize)) =
        some (.input, offset) ↔
      ∃ before segment after, path.MarkedBy .input before segment after ∧
        offset = (ofSegments before).byteSize) ∧
    (∀ offset, (path.locate?.map fun located => (located.direction, located.before.byteSize)) =
        some (.output, offset) ↔
      (∀ segment ∈ path.segments.tail, ¬ Direction.input.Marks segment) ∧
        ∃ before segment after, path.MarkedBy .output before segment after ∧
          offset = (ofSegments before).byteSize) ∧
    (path.locate? = none ↔
      ∀ direction : Direction, ∀ segment ∈ path.segments.tail, ¬ direction.Marks segment) ∧
    ∀ located, path.locate? = some located → ∃ before suffix after,
      path.MarkedBy located.direction before (located.direction.token ++ suffix) after ∧
      path.bytes.take located.before.byteSize = (ofSegments before).bytes ∧
      path.bytes.drop located.before.byteSize =
        Text.bytes ('.' :: ofSegments ((located.direction.token ++ suffix) :: after)) ∧
      path.splitDirection =
        (ofSegments (trimEmpty before), ofSegments (trimEmpty (suffix :: after))) ∧
      (functions <+: path → ∀ type, ∃ parameter, Parameter.ofPath path type = .ok parameter ∧
        parameter.direction = located.direction ∧
        parameter.package = ofSegments (trimEmpty before.tail).dropLast ∧
        parameter.function = (trimEmpty before.tail).getLast?.getD [] ∧
        parameter.name = Parameter.bareName ((trimEmpty (suffix :: after)).head?.getD [])) := by
  refine ⟨fun offset => ?_, fun offset => ?_, locate?_eq_none_iff, ?_⟩
  · rw [map_locate?_eq_some_iff]
    exact and_iff_right fun hinput => absurd hinput (by decide)
  · rw [map_locate?_eq_some_iff]
    exact and_congr_left' (forall_prop_of_true rfl)
  · rintro ⟨direction, start, rest⟩ hlocate
    obtain ⟨⟨before, suffix, after, hby, rfl, rfl⟩, -⟩ := locate?_eq_some_iff.1 hlocate
    refine ⟨before, suffix, after, hby, ?_, ?_, splitDirection_of_markedBy hby hlocate,
      fun hfunctions => Parameter.exists_ofPath_of_markedBy hfunctions hby hlocate⟩
    · conv_lhs => rw [hby.path_eq]
      exact Text.take_bytes _ _
    · conv_lhs => rw [hby.path_eq]
      exact Text.drop_bytes _ _

theorem locate?_by_segments_near_misses :
    locate? "func.größe.inputs.output@x.input@ü.é.input".toList =
        some ⟨.input, "func.größe.inputs.output@x".toList, "@ü.é.input".toList⟩ ∧
      functions <+: "func.größe.inputs.output@x.input@ü.é.input".toList ∧
      ∃ before suffix after,
        MarkedBy .input "func.größe.inputs.output@x.input@ü.é.input".toList before
          (Direction.input.token ++ suffix) after ∧
        (Text.bytes "func.größe.inputs.output@x.input@ü.é.input".toList).take 28 =
          (ofSegments before).bytes ∧
        ∃ parameter,
          Parameter.ofPath "func.größe.inputs.output@x.input@ü.é.input".toList [] =
              .ok parameter ∧
            parameter.function = (trimEmpty before.tail).getLast?.getD [] := by
  have hlocate : locate? "func.größe.inputs.output@x.input@ü.é.input".toList =
      some ⟨.input, "func.größe.inputs.output@x".toList, "@ü.é.input".toList⟩ := by decide +kernel
  have hfunctions : functions <+: "func.größe.inputs.output@x.input@ü.é.input".toList := by
    decide +kernel
  have hoffset : Text.byteSize "func.größe.inputs.output@x".toList = 28 := by decide +kernel
  obtain ⟨before, suffix, after, hby, htake, -, -, hparameter⟩ :=
    (locate?_by_segments _).2.2.2 _ hlocate
  obtain ⟨parameter, hparameter, -, -, hfunction, -⟩ := hparameter hfunctions []
  rw [hoffset] at htake
  exact ⟨hlocate, hfunctions, before, suffix, after, hby, htake, parameter, hparameter, hfunction⟩

end Path

end Reshape
