import Reshape.Proofs.Discovery
import Reshape.Proofs.Lines

/-!
# The texts of parameters

A parameter is written as `func.[package.]function.direction.argument`, and `@` and a type may
follow.  `Parameter.Form` holds the parts of such a text.  The parts are plain, but they may
look like a marker, such as `inputs`, or be one where no marker is looked for.

Reading the text cuts it four times, and there is one lemma for each cut.

* `Endpoint.ofText_text`: the type, from the right.
* `FunctionName.ofPath_argumentPath`: the marker, of an input before that of an output.
* `Parameter.splitLast_ofSegments`: the function and its package, from the right.
* `Parameter.nameAndType_ofSegments`: the name of the argument, from the left.

`Parameter.explain_form` puts them together.  What a parameter shows of itself has the form
of a text again, without the package and without what was behind the name.
-/

namespace Reshape

/-! ## Joined segments -/

namespace Path

variable {keys : List Text}

theorem notMem_ofSegments (h : ∀ key ∈ keys, key.IsSegment) : '@' ∉ ofSegments keys := by
  intro hmark
  have hne : keys ≠ [] := by
    rintro rfl
    exact absurd hmark List.not_mem_nil
  rcases mem_segments_of_mem hmark with hdot | ⟨key, hkey, hmem⟩
  · exact absurd hdot (by decide)
  · rw [segments_ofSegments hne fun key hkey => (h key hkey).1] at hkey
    exact (h key hkey).2 hmem

/-- Joining the parts of a path, if none is empty or has dots. -/
theorem join_eq_ofSegments (h : ∀ key ∈ keys, key ≠ [] ∧ key.IsSegment) :
    join keys = ofSegments keys := by
  have hkept : keys.filter (!·.isEmpty) = keys :=
    List.filter_eq_self.2 fun key hkey => by simpa using (h key hkey).1
  have htrimmed : keys.map trimDots = keys :=
    (List.map_congr_left fun key hkey => trimDots_of_notMem (h key hkey).2.1).trans (List.map_id keys)
  rw [join, hkept, htrimmed]

end Path

/-! ## The cuts -/

/-- A path and its type are read as they were written. -/
theorem Endpoint.ofText_text {endpoint : Endpoint} (hne : endpoint.path ≠ [])
    (hmark : '@' ∉ endpoint.path) (hlast : endpoint.path.getLast? ≠ some '.')
    (htype : endpoint.type.IsSegment) : ofText endpoint.text = endpoint := by
  obtain ⟨path, type⟩ := endpoint
  rw [text]
  split
  · rename_i hempty
    obtain rfl : type = [] := List.isEmpty_iff.1 hempty
    exact (ofText_eq_self_iff path).2 (Path.typeSuffix?_of_notMem hmark)
  · rw [ofText, Path.splitType, Path.typeSuffix?_append hlast htype fun he => absurd he hne]
    rfl

namespace Parameter

theorem splitLast_ofSegments {last : Text} (hlast : '.' ∉ last) (init : List Text) :
    splitLast (Path.ofSegments (init ++ [last])) = (Path.ofSegments init, last) := by
  by_cases hinit : init = []
  · subst hinit
    exact splitLast_of_notMem hlast
  · rw [Path.ofSegments_concat hinit, splitLast_append hlast]

theorem nameAndType_ofSegments {first : Text} (hfirst : '.' ∉ first) (others : List Text)
    (type : Text) :
    nameAndType (Path.ofSegments (first :: others)) type =
      if first.getLast? = some '#' then (first.dropLast, "array".toList)
      else (first, if others = [] then type else "object".toList) := by
  rw [nameAndType]
  by_cases hothers : others = []
  · subst hothers
    have hpath : Path.ofSegments [first] = first := rfl
    rw [hpath, Text.cutAt?_of_notMem hfirst, if_pos rfl]
  · rw [Path.ofSegments_cons first hothers, Text.cutAt?_append hfirst, if_neg hothers]

/-! ## Forms -/

/-- A segment of an argument: a plain key, which stands before a `#` if it names an array. -/
structure ArgumentKey where
  key : Text
  isArray : Bool
  isPlain : key.isPlain = true

namespace ArgumentKey

def segment (argument : ArgumentKey) : Text :=
  if argument.isArray then argument.key ++ Path.each else argument.key

theorem notMem_key (argument : ArgumentKey) : '#' ∉ argument.key :=
  Text.notMem_of_isPlain argument.isPlain (by decide)

theorem isSegment (argument : ArgumentKey) : argument.segment ≠ [] ∧ argument.segment.IsSegment := by
  have hne := Text.ne_nil_of_isPlain argument.isPlain
  obtain ⟨hdot, hmark⟩ := Text.isSegment_of_isPlain argument.isPlain
  rw [segment]
  split
  · exact ⟨by simp [hne], by simpa [Path.each] using hdot, by simpa [Path.each] using hmark⟩
  · exact ⟨hne, hdot, hmark⟩

theorem segment_ne_token {argument : ArgumentKey} {direction : Direction}
    (h : argument.key ≠ direction.token) : argument.segment ≠ direction.token := by
  rw [segment]
  split
  · intro he
    have hmark : '#' ∈ direction.token := he ▸ by simp [Path.each]
    exact Text.notMem_of_isPlain (Direction.isPlain_token direction) (by decide) hmark
  · exact h

/-- The name of an argument is its first key. -/
theorem nameAndType_eq (first : ArgumentKey) (others : List Text) (type : Text) :
    nameAndType (Path.ofSegments (first.segment :: others)) type =
      (first.key, if first.isArray then "array".toList
        else if others = [] then type else "object".toList) := by
  rw [nameAndType_ofSegments first.isSegment.2.1]
  cases harray : first.isArray with
  | true =>
    have hsegment : first.segment = first.key ++ ['#'] := if_pos harray
    rw [hsegment, List.getLast?_concat, if_pos rfl, List.dropLast_concat, if_pos rfl]
  | false =>
    have hsegment : first.segment = first.key := if_neg (by simp [harray])
    have hlast : first.key.getLast? ≠ some '#' :=
      fun he => first.notMem_key (List.mem_of_getLast? he)
    rw [hsegment, if_neg hlast, if_neg Bool.false_ne_true]

end ArgumentKey

/-- The parts of a parameter's text.  The type is empty if there is none. -/
structure Form where
  package : List Text
  function : Text
  direction : Direction
  first : ArgumentKey
  others : List ArgumentKey
  type : Text
  package_isPlain : ∀ key ∈ package, key.isPlain = true
  function_isPlain : function.isPlain = true
  unmarked : ∀ marked : Direction, marked.token ∉ package ++ [function]
  unambiguous : direction = .output →
    ∀ argument ∈ first :: others, argument.key ≠ Direction.input.token
  type_isPlain : type ≠ [] → type.isPlain = true

namespace Form

/-- The segments behind the marker. -/
def arguments (form : Form) : List Text :=
  (form.first :: form.others).map (·.segment)

def segments (form : Form) : List Text :=
  "func".toList :: (form.package ++ [form.function] ++ form.direction.token :: form.arguments)

/-- The path of a parameter's text. -/
def path (form : Form) : Path :=
  Path.ofSegments form.segments

def text (form : Form) : Text :=
  Endpoint.text ⟨form.path, form.type⟩

/-- The parameter that the parts describe. -/
def parameter (form : Form) : Parameter where
  direction := form.direction
  package := Path.ofSegments form.package
  function := form.function
  name := form.first.key
  path := Path.ofSegments ["func".toList, form.function, form.direction.token, form.first.key]
  type :=
    if form.first.isArray then "array".toList
    else if form.others = [] then form.type else "object".toList

/-! ## Reading a form -/

variable (form : Form)

theorem identity_isPlain : ∀ key ∈ form.package ++ [form.function], key.isPlain = true := by
  intro key hkey
  rcases List.mem_append.1 hkey with hpackage | hfunction
  · exact form.package_isPlain key hpackage
  · rw [List.mem_singleton.1 hfunction]
    exact form.function_isPlain

theorem segments_identity :
    Path.segments (Path.ofSegments (form.package ++ [form.function])) =
      form.package ++ [form.function] :=
  Path.segments_ofSegments (by simp) fun key hkey =>
    Text.notMem_of_isPlain (form.identity_isPlain key hkey) (by decide)

/-- The function with its package. -/
def functionName : FunctionName where
  path := Path.ofSegments (form.package ++ [form.function])
  isPlain := Path.isPlain_ofSegments (by simp) form.identity_isPlain
  notInput := by
    rw [segments_identity]
    exact form.unmarked .input
  notOutput := by
    rw [segments_identity]
    exact form.unmarked .output

theorem arguments_ne_nil : form.arguments ≠ [] :=
  List.cons_ne_nil _ _

theorem isSegment_arguments : ∀ key ∈ form.arguments, key ≠ [] ∧ key.IsSegment := by
  intro key hkey
  obtain ⟨argument, -, rfl⟩ := List.mem_map.1 hkey
  exact argument.isSegment

theorem segments_arguments :
    Path.segments (Path.ofSegments form.arguments) = form.arguments :=
  Path.segments_ofSegments form.arguments_ne_nil fun key hkey =>
    (form.isSegment_arguments key hkey).2.1

theorem notMem_arguments (h : form.direction = .output) :
    Direction.input.token ∉ form.arguments := by
  intro htoken
  obtain ⟨argument, hargument, heq⟩ := List.mem_map.1 htoken
  exact ArgumentKey.segment_ne_token (form.unambiguous h argument hargument) heq

theorem path_eq :
    form.path = form.functionName.argumentPath form.direction (Path.ofSegments form.arguments) := by
  have hidentity : Path.segments form.functionName.path = form.package ++ [form.function] :=
    form.segments_identity
  rw [FunctionName.argumentPath_eq, hidentity, segments_arguments, path, segments,
    Path.ofSegments, Text.join_cons_eq_flatMap]

theorem isSegment_segments : ∀ key ∈ form.segments, key ≠ [] ∧ key.IsSegment := by
  intro key hkey
  rw [segments, List.mem_cons, List.mem_append, List.mem_cons] at hkey
  rcases hkey with rfl | hidentity | rfl | hargument
  · exact Text.ne_nil_and_isSegment (by decide)
  · exact Text.ne_nil_and_isSegment (form.identity_isPlain key hidentity)
  · exact Text.ne_nil_and_isSegment (Direction.isPlain_token _)
  · exact form.isSegment_arguments key hargument

/-- The type is cut off from the path. -/
theorem ofText_text : Endpoint.ofText form.text = ⟨form.path, form.type⟩ := by
  have htype : form.type.IsSegment := by
    by_cases hempty : form.type = []
    · rw [hempty]
      exact ⟨List.not_mem_nil, List.not_mem_nil⟩
    · exact Text.isSegment_of_isPlain (form.type_isPlain hempty)
  refine Endpoint.ofText_text ?_ ?_ ?_ htype
  · rw [path_eq]
    simp [FunctionName.argumentPath]
  · exact Path.notMem_ofSegments fun key hkey => (form.isSegment_segments key hkey).2
  · exact Path.getLast?_ofSegments (List.cons_ne_nil _ _) form.isSegment_segments

/-- The path of the parameter is joined of its parts. -/
theorem join_parameter :
    Path.join ["func".toList, form.function, form.direction.token, form.first.key] =
      form.parameter.path := by
  apply Path.join_eq_ofSegments
  have hfunc : Text.isPlain "func".toList = true := by decide
  simp only [List.forall_mem_cons, List.not_mem_nil, false_implies, implies_true, and_true]
  exact ⟨Text.ne_nil_and_isSegment hfunc, Text.ne_nil_and_isSegment form.function_isPlain,
    Text.ne_nil_and_isSegment (Direction.isPlain_token _),
    Text.ne_nil_and_isSegment form.first.isPlain⟩

/-- The text of the parts is read as the parameter that they describe. -/
theorem explain_eq : explain form.text = .ok form.parameter := by
  have hidentity : splitLast form.functionName.path =
      (Path.ofSegments form.package, form.function) :=
    splitLast_ofSegments (Text.notMem_of_isPlain form.function_isPlain (by decide)) form.package
  have hargument : nameAndType (Path.trimDots (Path.ofSegments form.arguments)) form.type =
      (form.first.key, form.parameter.type) := by
    rw [Path.trimDots_ofSegments form.arguments_ne_nil form.isSegment_arguments, arguments,
      List.map_cons, form.first.nameAndType_eq, parameter]
    simp only [List.map_eq_nil_iff]
  calc explain form.text
      = ofEndpoint (Endpoint.ofText form.text) := rfl
    _ = ofPath form.path form.type := by rw [ofText_text]; rfl
    _ = .ok form.parameter := by
        rw [path_eq, FunctionName.ofPath_argumentPath]
        · rw [hidentity, hargument, join_parameter]
          rfl
        · rw [segments_arguments]
          exact fun key hkey => (form.isSegment_arguments key hkey).2
        · rw [segments_arguments]
          exact form.notMem_arguments

/-! ## What a parameter shows of itself -/

theorem shownType_isPlain (h : form.parameter.shownType ≠ []) :
    form.parameter.shownType.isPlain = true := by
  have htype : form.parameter.type = "array".toList ∨ form.parameter.type = "object".toList ∨
      form.parameter.type = form.type := by
    rw [parameter]
    split_ifs
    · exact .inl rfl
    · exact .inr (.inr rfl)
    · exact .inr (.inl rfl)
  rw [shownType] at h ⊢
  split_ifs at h ⊢ with hhidden
  · exact absurd rfl h
  · -- the texts of arrays and objects are not shown, so it is the type that was declared
    rcases htype with harray | hobject | hdeclared
    · exact absurd (by rw [harray]; decide) hhidden
    · exact absurd (by rw [hobject]; decide) hhidden
    · rw [hdeclared] at h ⊢
      exact form.type_isPlain h

/-- The form of what a parameter shows: only its name stands behind the marker. -/
def shown : Form where
  package := []
  function := form.function
  direction := form.direction
  first := ⟨form.first.key, false, form.first.isPlain⟩
  others := []
  type := form.parameter.shownType
  package_isPlain := by simp
  function_isPlain := form.function_isPlain
  unmarked := fun marked hmarked => form.unmarked marked (List.mem_append_right _ hmarked)
  unambiguous := by
    intro h argument hargument
    rw [List.mem_singleton.1 hargument]
    exact form.unambiguous h form.first (by simp)
  type_isPlain := form.shownType_isPlain

theorem text_shown : form.shown.text = form.parameter.text := rfl

theorem parameter_shown :
    form.shown.parameter =
      { form.parameter with package := [], type := form.parameter.shownType } := rfl

end Form

theorem shownType_shownType (parameter : Parameter) (package : Text) :
    shownType { parameter with package := package, type := parameter.shownType } =
      parameter.shownType := by
  by_cases hhidden : (Text.sameLetters parameter.type "object".toList ||
      Text.sameLetters parameter.type "array".toList) = true
  · have hempty : parameter.shownType = [] := if_pos hhidden
    rw [hempty]
    exact ite_self _
  · have hshown : parameter.shownType = parameter.type := if_neg hhidden
    rw [hshown]
    exact hshown

/-- A text of the form `func.[package.]function.direction.argument` with an optional type is
read as the parameter of its parts.  The text that the parameter shows is read as the same
parameter without its package, as far as its type is shown, and that shows the same text. -/
theorem explain_form (form : Form) :
    explain form.text = .ok form.parameter ∧
      ∃ shown, explain form.parameter.text = .ok shown ∧
        shown = { form.parameter with package := [], type := form.parameter.shownType } ∧
        shown.text = form.parameter.text := by
  refine ⟨form.explain_eq, form.shown.parameter, ?_, form.parameter_shown, ?_⟩
  · rw [← form.text_shown]
    exact form.shown.explain_eq
  · rw [form.parameter_shown, text, text, shownType_shownType]

/-- Segments that begin or end like a marker, and markers and the namespace where they mark
nothing. -/
def markedForm : Form where
  package := ["outputs".toList, "re-input".toList]
  function := "func".toList
  direction := .output
  first := ⟨"output".toList, true, by decide⟩
  others := [⟨"inputX".toList, false, by decide⟩, ⟨"output".toList, false, by decide⟩]
  type := "input".toList
  package_isPlain := by decide
  function_isPlain := by decide
  unmarked := fun marked => by cases marked <;> decide
  unambiguous := fun _ => by decide
  type_isPlain := by decide

theorem explain_form_marked :
    markedForm.text = "func.outputs.re-input.func.output.output#.inputX.output@input".toList ∧
      explain markedForm.text = .ok ⟨.output, "outputs.re-input".toList, "func".toList,
        "output".toList, "func.func.output.output".toList, "array".toList⟩ ∧
      ∃ shown, explain "func.func.output.output".toList = .ok shown ∧ shown.package = [] ∧
        shown.text = "func.func.output.output".toList := by
  obtain ⟨hread, shown, hshown, hparts, htext⟩ := explain_form markedForm
  refine ⟨by decide, hread, shown, hshown, ?_, htext⟩
  rw [hparts]

end Parameter

end Reshape
