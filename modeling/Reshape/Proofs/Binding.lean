import Reshape.Function.Invocation
import Reshape.Proofs.Marker
import Reshape.Proofs.Signature
import Reshape.Proofs.Trimming

/-!
# Rules that bind the parameters of a function

A rule about a function binds an argument of the function to a place in the
document.  The argument stands in the source path, behind the name of the function
and a marker for the direction.  This module says what the operations on rules find
in such a path: the direction, the name, and the argument.

* `FunctionName.locate?_argumentPath`: cutting the path at its marker.
* `FunctionName.ofPath_argumentPath`: the parameter that the path describes.
* `RuleSet.signatures_bindings`: the rules of one function give its signature first.
* `RuleSet.inputs_bindings`, `RuleSet.payloadProjection_bindings` and their duals: the
  slices of a rule set, with the namespaces trimmed.
-/

namespace Reshape

/-! ## Names and bindings -/

/-- The name of a function with its package: plain segments, none of which marks a
direction. -/
structure FunctionName where
  path : Path
  isPlain : path.isPlain = true
  notInput : Direction.input.token ∉ Path.segments path
  notOutput : Direction.output.token ∉ Path.segments path

/-- What a rule about a function binds: an argument, in some direction, to a place in
the document.  Both may carry a type.  The path of an output does not look like an
input. -/
structure Binding where
  direction : Direction
  argument : Endpoint
  place : Endpoint
  argument_isPlain : argument.path.isPlain = true
  place_isPlain : place.path.isPlain = true
  unambiguous : direction = .output → Direction.input.token ∉ Path.segments argument.path

theorem Binding.argument_isSegment (binding : Binding) :
    ∀ segment ∈ Path.segments binding.argument.path, segment.IsSegment :=
  fun _ hs => Text.isSegment_of_isPlain (Path.isPlain_of_mem_segments binding.argument_isPlain hs)

namespace FunctionName

/-- The namespace of the rules about a function. -/
def space (name : FunctionName) : Text :=
  Path.functions ++ name.path

/-- The path of an argument. -/
def argumentPath (name : FunctionName) (direction : Direction) (argument : Path) : Path :=
  name.space ++ direction.marker ++ '.' :: argument

theorem notToken (name : FunctionName) (direction : Direction) :
    direction.token ∉ Path.segments name.path := by
  cases direction with
  | input => exact name.notInput
  | output => exact name.notOutput

theorem argumentPath_eq (name : FunctionName) (direction : Direction) (argument : Path) :
    name.argumentPath direction argument =
      "func".toList ++
        (Path.segments name.path ++ direction.token :: Path.segments argument).flatMap
          ('.' :: ·) := by
  have hspace : name.space = "func".toList ++ '.' :: name.path := rfl
  rw [argumentPath, hspace, Direction.marker, List.flatMap_append, List.flatMap_cons,
    Text.dot_cons_eq_flatMap name.path, Text.dot_cons_eq_flatMap argument]
  simp

theorem segments_space (name : FunctionName) :
    Path.segments name.space = "func".toList :: Path.segments name.path :=
  Path.segments_append_dot "func".toList name.path

theorem segments_argumentPath (name : FunctionName) (direction : Direction) (argument : Path) :
    Path.segments (name.argumentPath direction argument) =
      "func".toList :: (Path.segments name.path ++ direction.token :: Path.segments argument) := by
  have htoken : Path.segments direction.token = [direction.token] := by cases direction <;> rfl
  rw [argumentPath, Path.segments_append_dot, Direction.marker, Path.segments_append_dot,
    segments_space, htoken]
  simp

/-- The direction, the name and the argument are found in the path.  The path of an output
must not look like an input. -/
theorem locate?_argumentPath (name : FunctionName) {direction : Direction} {argument : Path}
    (hargument : ∀ segment ∈ Path.segments argument, segment.IsSegment)
    (hunambiguous : direction = .output → Direction.input.token ∉ Path.segments argument) :
    Path.locate? (name.argumentPath direction argument) =
      some ⟨direction, name.space, '.' :: argument⟩ := by
  have hsegments := name.segments_argumentPath direction argument
  have hname : ∀ marked : Direction, ∀ segment ∈ Path.segments name.path,
      ¬ marked.Marks segment := by
    intro marked segment hsegment
    apply Direction.not_marks_of_isSegment
    · exact Text.isSegment_of_isPlain (Path.isPlain_of_mem_segments name.isPlain hsegment)
    · rintro rfl
      exact name.notToken marked hsegment
  rw [Path.locate?_eq_some_iff]
  refine ⟨⟨"func".toList :: Path.segments name.path, [], Path.segments argument, ?_, ?_, ?_⟩, ?_⟩
  · rw [List.append_nil]
    exact ⟨hsegments, by simp, .inl rfl, hname direction⟩
  · rw [Path.ofSegments_cons _ (Path.segments_ne_nil name.path), Path.ofSegments_segments]
    rfl
  · rw [Path.ofSegments_cons _ (Path.segments_ne_nil argument), Path.ofSegments_segments]
    rfl
  · rintro rfl segment hsegment
    rw [hsegments, List.tail_cons, List.mem_append, List.mem_cons] at hsegment
    rcases hsegment with hs | rfl | hs
    · exact hname .input segment hs
    · decide
    · apply Direction.not_marks_of_isSegment (hargument segment hs)
      rintro rfl
      exact hunambiguous rfl hs

end FunctionName

/-- The rule that makes a binding. -/
def Binding.rule (name : FunctionName) (binding : Binding) : Rule :=
  ⟨⟨name.argumentPath binding.direction binding.argument.path, binding.argument.type⟩,
    binding.place⟩

/-! ## Signatures -/

namespace Path

/-- There are no dots at the end of a plain path. -/
theorem trimEnd_of_isPlain {path : Path} (h : path.isPlain = true) (before : Text) :
    Text.trimEnd (· == '.') (before ++ path) = before ++ path := by
  obtain ⟨last, hlast, hpath⟩ := eq_last_or_append_of_isPlain h
  obtain ⟨start, c, hend⟩ : ∃ start c, last = start ++ [c] :=
    ⟨_, _, (List.dropLast_append_getLast (Text.ne_nil_of_isPlain hlast)).symm⟩
  have hc : (c == '.') = false := beq_false_of_ne
    (Text.isPlainChar_ne (Text.isPlainChar_of_mem hlast (by simp [hend])) (by decide))
  obtain ⟨init, hinit⟩ : ∃ init, before ++ path = init ++ [c] := by
    rcases hpath with rfl | ⟨init, -, rfl⟩
    · exact ⟨before ++ start, by simp [hend]⟩
    · exact ⟨before ++ init ++ '.' :: start, by simp [hend]⟩
  simp [hinit, Text.trimEnd, hc]

theorem trimDots_eq_self {path : Path} (hstart : path.head? ≠ some '.')
    (hend : path.getLast? ≠ some '.') : trimDots path = path := by
  have hfirst : ∀ c ∈ path.head?, (c == '.') = false :=
    fun c hc => beq_false_of_ne fun he => hstart (he ▸ hc)
  have hlast : ∀ c ∈ path.getLast?, (c == '.') = false :=
    fun c hc => beq_false_of_ne fun he => hend (he ▸ hc)
  rw [trimDots, Text.trimBoth, Text.trimStart_eq_self hfirst, Text.trimEnd_eq_self_iff.2 hlast]

section

variable {keys : List Text}

theorem head?_ofSegments_cons {first : Text} (hne : first ≠ []) (hdot : '.' ∉ first)
    (others : List Text) : (ofSegments (first :: others)).head? ≠ some '.' := by
  rw [ofSegments_cons_eq_flatMap, List.head?_append_of_ne_nil _ hne]
  exact fun he => hdot (List.mem_of_head? he)

theorem getLast?_ofSegments_concat {last : Text} (hne : last ≠ []) (hdot : '.' ∉ last)
    (init : List Text) : (ofSegments (init ++ [last])).getLast? ≠ some '.' := by
  have hend : (ofSegments (init ++ [last])).getLast? = last.getLast? := by
    by_cases hinit : init = []
    · subst hinit
      rfl
    · rw [ofSegments_concat hinit, List.getLast?_append_cons, List.getLast?_cons_of_ne_nil hne]
  rw [hend]
  exact fun he => hdot (List.mem_of_getLast? he)

theorem head?_ofSegments (h : ∀ key ∈ keys, key ≠ [] ∧ key.IsSegment) :
    (ofSegments keys).head? ≠ some '.' := by
  cases keys with
  | nil => simp [ofSegments]
  | cons first others =>
    obtain ⟨hfirst, hsegment⟩ := h first (by simp)
    exact head?_ofSegments_cons hfirst hsegment.1 others

theorem getLast?_ofSegments (hne : keys ≠ []) (h : ∀ key ∈ keys, key ≠ [] ∧ key.IsSegment) :
    (ofSegments keys).getLast? ≠ some '.' := by
  obtain ⟨init, last, rfl⟩ : ∃ init last, keys = init ++ [last] :=
    ⟨_, _, (List.dropLast_append_getLast hne).symm⟩
  obtain ⟨hlast, hsegment⟩ := h last (by simp)
  exact getLast?_ofSegments_concat hlast hsegment.1 init

/-- There are no dots around joined segments. -/
theorem trimDots_ofSegments (hne : keys ≠ []) (h : ∀ key ∈ keys, key ≠ [] ∧ key.IsSegment) :
    trimDots (ofSegments keys) = ofSegments keys :=
  trimDots_eq_self (head?_ofSegments h) (getLast?_ofSegments hne h)

end

theorem trimDots_of_isPlain {path : Path} (h : path.isPlain = true) : trimDots path = path := by
  have htrim := trimDots_ofSegments (segments_ne_nil path) fun key hkey =>
    Text.ne_nil_and_isSegment (isPlain_of_mem_segments h hkey)
  rwa [ofSegments_segments] at htrim

theorem trimDots_prefix (text : Text) : trimDots text <+: text.dropWhile (· == '.') :=
  List.rdropWhile_prefix _ _

theorem head?_trimDots (text : Text) : (trimDots text).head? ≠ some '.' := by
  intro h
  obtain ⟨rest, hrest⟩ := trimDots_prefix text
  have hstart := List.head?_dropWhile_not (· == '.') text
  rw [← hrest, List.head?_append, h] at hstart
  simp at hstart

end Path

namespace Parameter

theorem splitLast_append {last : Text} (hlast : '.' ∉ last) (init : Text) :
    splitLast (init ++ '.' :: last) = (init, last) := by
  have htake : (init ++ '.' :: last).reverse.takeWhile (· != '.') = last.reverse := by
    rw [List.reverse_append, List.reverse_cons, List.append_assoc, List.takeWhile_append_of_pos]
    · simp
    · intro c hc
      simpa using fun he : c = '.' => hlast (he ▸ List.mem_reverse.1 hc)
  have hlength : (init ++ '.' :: last).length - last.length - 1 = init.length := by
    simp
    omega
  rw [splitLast, htake, List.reverse_reverse, hlength, List.take_left]

theorem splitLast_of_notMem {name : Text} (h : '.' ∉ name) : splitLast name = ([], name) := by
  have htake : name.reverse.takeWhile (· != '.') = name.reverse := by
    rw [List.takeWhile_eq_self_iff]
    intro c hc
    simpa using fun he : c = '.' => h (he ▸ List.mem_reverse.1 hc)
  simp [splitLast, htake]

/-- Cutting a name at its last dot and joining it again. -/
theorem qualifiedName_splitLast {name : Text} (h : name.head? ≠ some '.') :
    qualifiedName (splitLast name).1 (splitLast name).2 = name := by
  by_cases hdot : '.' ∈ name
  · obtain ⟨init, last, rfl, hlast⟩ : ∃ init last, name = init ++ '.' :: last ∧ '.' ∉ last := by
      obtain ⟨behind, before, hreverse, hfree⟩ :=
        List.eq_append_cons_of_mem (List.mem_reverse.2 hdot)
      refine ⟨before.reverse, behind.reverse, ?_, by simpa using hfree⟩
      rw [← List.reverse_reverse name, hreverse]
      simp
    have hinit : init ≠ [] := by
      rintro rfl
      exact h rfl
    rw [splitLast_append hlast]
    simp [qualifiedName, hinit]
  · rw [splitLast_of_notMem hdot]
    rfl

end Parameter

/-- The parameter that the path of an argument describes. -/
theorem FunctionName.ofPath_argumentPath (name : FunctionName) {direction : Direction}
    {argument : Path} (hargument : ∀ segment ∈ Path.segments argument, segment.IsSegment)
    (hunambiguous : direction = .output → Direction.input.token ∉ Path.segments argument)
    (type : Text) :
    Parameter.ofPath (name.argumentPath direction argument) type =
      .ok ⟨direction, (Parameter.splitLast name.path).1, (Parameter.splitLast name.path).2,
        (Parameter.nameAndType (Path.trimDots argument) type).1,
        Path.join ["func".toList, (Parameter.splitLast name.path).2, direction.token,
          (Parameter.nameAndType (Path.trimDots argument) type).1],
        (Parameter.nameAndType (Path.trimDots argument) type).2⟩ := by
  have hnamespace : Path.hasNamespace (name.argumentPath direction argument)
      Path.functions = true := by
    rw [Path.hasNamespace, argumentPath, space, List.append_assoc, List.append_assoc]
    exact List.isPrefixOf_iff_prefix.2 (List.prefix_append _ _)
  have hdrop : Path.trimDots (name.space.drop Path.functions.length) = name.path := by
    rw [space, List.drop_left, Path.trimDots_of_isPlain name.isPlain]
  have hdot : Path.trimDots ('.' :: argument) = Path.trimDots argument := rfl
  simp only [Parameter.ofPath, hnamespace, name.locate?_argumentPath hargument hunambiguous, hdrop,
    hdot, Bool.not_true, Bool.false_eq_true, if_false]

/-- The source of a binding describes a parameter of the function. -/
theorem Binding.exists_parameter (name : FunctionName) (binding : Binding) :
    ∃ parameter, Parameter.ofEndpoint (binding.rule name).source = .ok parameter ∧
      parameter.qualified = name.path := by
  have hstart : name.path.head? ≠ some '.' :=
    Path.trimDots_of_isPlain name.isPlain ▸ Path.head?_trimDots _
  exact ⟨_, name.ofPath_argumentPath binding.argument_isSegment binding.unambiguous _,
    Parameter.qualifiedName_splitLast hstart⟩

/-- The rules of one function describe its signature. -/
theorem RuleSet.signatures_bindings (name : FunctionName) {bindings : List Binding}
    (hne : bindings ≠ []) :
    ∃ signature rest, RuleSet.signatures (bindings.map (Binding.rule name)) = signature :: rest ∧
      signature.space = name.space := by
  have hmember : ∀ parameter ∈ RuleSet.parameters (bindings.map (Binding.rule name)),
      parameter.qualified = name.path := by
    intro parameter hparameter
    obtain ⟨rule, hrule, hok⟩ := mem_described.1 (mem_of_mem_collect hparameter)
    obtain ⟨binding, -, rfl⟩ := List.mem_map.1 hrule
    obtain ⟨found, hfound, hqualified⟩ := binding.exists_parameter name
    obtain rfl : found = parameter := by simpa [hfound] using hok
    exact hqualified
  have hnonempty : RuleSet.parameters (bindings.map (Binding.rule name)) ≠ [] := by
    apply collect_ne_nil
    obtain ⟨first, rest, rfl⟩ := List.exists_cons_of_ne_nil hne
    obtain ⟨found, hfound, -⟩ := first.exists_parameter name
    rw [List.map_cons, List.filterMap_cons, hfound]
    simp [Except.toOption]
  obtain ⟨parameter, others, hparameters⟩ := List.exists_cons_of_ne_nil hnonempty
  have hhead : (RuleSet.signatures (bindings.map (Binding.rule name))).head?.map (·.qualified) =
      some parameter.qualified := by
    rw [← List.head?_map, RuleSet.signatures,
      Parameters.map_qualified_signatures (apart_parameters _), head?_distinct, hparameters]
    rfl
  obtain ⟨signature, hsignature, hqualified⟩ := Option.map_eq_some_iff.1 hhead
  obtain ⟨rest, hrest⟩ := List.head?_eq_some_iff.1 hsignature
  refine ⟨signature, rest, hrest, ?_⟩
  rw [Signature.space, hqualified, hmember parameter (by simp [hparameters])]
  rfl

/-! ## Slices of a rule set -/

namespace Binding

/-- The rule that takes an argument out of the document. -/
def inward (binding : Binding) : Rule :=
  ⟨binding.place, binding.argument⟩

/-- The rule that puts a result into the document. -/
def outward (binding : Binding) : Rule :=
  ⟨binding.argument, binding.place⟩

/-- The bindings of one direction. -/
def along (direction : Direction) (bindings : List Binding) : List Binding :=
  bindings.filter fun binding => binding.direction = direction

theorem direction?_rule (name : FunctionName) (binding : Binding) :
    (binding.rule name).source.path.direction? = some binding.direction := by
  rw [Path.direction?, rule,
    name.locate?_argumentPath binding.argument_isSegment binding.unambiguous]
  rfl

/-- Trimming the namespace of the function and the marker leaves the argument. -/
theorem trimNamespace_argumentPath (name : FunctionName) (direction : Direction)
    (argument : Path) :
    Path.trimNamespace (name.space ++ direction.marker) (name.argumentPath direction argument) =
      argument := by
  rw [Path.trimNamespace, FunctionName.argumentPath, Text.after?_append]
  exact congrArg (Option.getD · _) (Text.after?_append ['.'] argument)

theorem same_rule (name : FunctionName) {left right : Binding}
    (h : left.direction = right.direction) :
    Rule.same (left.rule name) (right.rule name) = Rule.same left.outward right.outward := by
  have hpath : Text.sameLetters (name.argumentPath left.direction left.argument.path)
      (name.argumentPath right.direction right.argument.path) =
      Text.sameLetters left.argument.path right.argument.path := by
    rw [h, Bool.eq_iff_iff, Text.sameLetters, Text.sameLetters, beq_iff_eq, beq_iff_eq]
    simp [FunctionName.argumentPath, Text.foldCase]
  simp only [Rule.same, Endpoint.same, rule, outward, hpath]

theorem same_inward (left right : Binding) :
    Rule.same left.inward right.inward = Rule.same left.outward right.outward := by
  simp only [Rule.same, inward, outward]
  exact Bool.and_comm _ _

end Binding

namespace RuleSet

variable {name : FunctionName} {bindings : List Binding}

/-- Bindings of one direction stay apart when their namespace is left out. -/
theorem apart_outward (h : Apart Rule.same (bindings.map (Binding.rule name)))
    (direction : Direction) :
    Apart Rule.same ((Binding.along direction bindings).map Binding.outward) := by
  rw [Apart, List.pairwise_map] at h ⊢
  refine (h.sublist List.filter_sublist).imp_of_mem ?_
  intro left right hleft hright hsame
  have hl : left.direction = direction := by simpa using (List.mem_filter.1 hleft).2
  have hr : right.direction = direction := by simpa using (List.mem_filter.1 hright).2
  rwa [← Binding.same_rule name (hl.trans hr.symm)]

theorem apart_inward (h : Apart Rule.same (bindings.map (Binding.rule name)))
    (direction : Direction) :
    Apart Rule.same ((Binding.along direction bindings).map Binding.inward) := by
  have houtward := apart_outward h direction
  rw [Apart, List.pairwise_map] at houtward ⊢
  exact houtward.imp fun hsame => by rwa [Binding.same_inward]

section

variable (h : Apart Rule.same (bindings.map (Binding.rule name)))

include h

theorem under_space : under name.space (bindings.map (Binding.rule name)) =
    bindings.map (Binding.rule name) := by
  have hall : (bindings.map (Binding.rule name)).filter (fun rule =>
      rule.source.path.hasNamespace (Text.trimEnd (· == '.') name.space ++ ['.'])) =
      bindings.map (Binding.rule name) := by
    rw [List.filter_eq_self]
    intro rule hrule
    obtain ⟨binding, -, rfl⟩ := List.mem_map.1 hrule
    rw [FunctionName.space, Path.trimEnd_of_isPlain name.isPlain, Path.hasNamespace,
      List.isPrefixOf_iff_prefix]
    exact ⟨binding.direction.token ++ '.' :: binding.argument.path, by
      simp [Binding.rule, FunctionName.argumentPath, FunctionName.space, Direction.marker]⟩
  rw [under, hall]
  exact collect_of_apart h

theorem collected_along (direction : Direction) :
    collected ((bindings.map (Binding.rule name)).filter
      fun rule => rule.source.path.direction? = some direction) =
      (Binding.along direction bindings).map (Binding.rule name) := by
  have hfilter : (bindings.map (Binding.rule name)).filter
      (fun rule => rule.source.path.direction? = some direction) =
      (Binding.along direction bindings).map (Binding.rule name) := by
    rw [List.filter_map, Binding.along]
    congr 2
    funext binding
    simp [Binding.direction?_rule]
  rw [hfilter]
  apply collect_of_apart
  rw [Apart, List.pairwise_map] at h ⊢
  exact h.sublist List.filter_sublist

theorem inputs_bindings : inputs (bindings.map (Binding.rule name)) =
    (Binding.along .input bindings).map (Binding.rule name) :=
  collected_along h .input

theorem outputs_bindings : outputs (bindings.map (Binding.rule name)) =
    (Binding.along .output bindings).map (Binding.rule name) :=
  collected_along h .output

/-- The payload of a function is the projection by its inward rules. -/
theorem payloadProjection_bindings (settings : Settings) :
    payloadProjection settings name.space (bindings.map (Binding.rule name)) =
      RuleSet.compile settings.coercions
        ((Binding.along .input bindings).map Binding.inward) := by
  have hrules : (Binding.along .input bindings).map (fun binding =>
      { (binding.rule name).swap with
        target.path := Path.trimNamespace (name.space ++ Direction.input.marker)
          (binding.rule name).swap.target.path }) =
      (Binding.along .input bindings).map Binding.inward := by
    apply List.map_congr_left
    intro binding hbinding
    have hdirection : binding.direction = .input := by
      simpa using (List.mem_filter.1 hbinding).2
    simp only [Binding.rule, Rule.swap, Binding.inward, hdirection,
      Binding.trimNamespace_argumentPath]
  rw [payloadProjection, inputs_bindings h, swapped, mapTargets, List.map_map, List.map_map]
  exact congrArg (compile settings.coercions)
    ((congrArg collected hrules).trans (collect_of_apart (apart_inward h .input)))

/-- The patch of a function is the projection by its outward rules. -/
theorem resultProjection_bindings (settings : Settings) :
    resultProjection settings name.space (bindings.map (Binding.rule name)) =
      RuleSet.compile settings.coercions
        ((Binding.along .output bindings).map Binding.outward) := by
  have hrules : (Binding.along .output bindings).map (fun binding =>
      { binding.rule name with
        source.path := Path.trimNamespace (name.space ++ Direction.output.marker)
          (binding.rule name).source.path }) =
      (Binding.along .output bindings).map Binding.outward := by
    apply List.map_congr_left
    intro binding hbinding
    have hdirection : binding.direction = .output := by
      simpa using (List.mem_filter.1 hbinding).2
    simp only [Binding.rule, Binding.outward, hdirection, Binding.trimNamespace_argumentPath]
  rw [resultProjection, outputs_bindings h, mapSources, List.map_map]
  exact congrArg (compile settings.coercions)
    ((congrArg collected hrules).trans (collect_of_apart (apart_outward h .output)))

end

end RuleSet

end Reshape
