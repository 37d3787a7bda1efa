import Reshape.Proofs.Selection

/-!
# The order of the candidates

The candidates for some wanted paths are found by way of the rules that write them: the
rules are collected path by path, and the namespaces of their functions are taken then.
There are two groups of results on what comes out.

* `RuleSet.candidates_eq`: the candidates are the namespaces of the writers of the first
  path, then those of the second path, and so on, each at its first occurrence.
* Rules that are written as clauses, each of which binds an argument of a function.
  `Clause.candidates_clauses` and `Clause.checked_clauses` say which functions are
  candidates and which inputs are looked at, and `Session.run_select` what is selected.
-/

namespace Reshape

/-! ## Candidates for each path -/

namespace Rule

/-- Whether the rule puts an output at the path. -/
def writes (path : Path) (rule : Rule) : Bool :=
  rule.isOut && Text.sameLetters rule.target.path path

/-- The text before the first marker of an output. -/
def space? (rule : Rule) : Option Text :=
  (Text.cutAt? Direction.output.marker rule.source.path).map (·.1)

end Rule

namespace RuleSet

variable {rules : RuleSet}

/-- The namespaces of the rules that write a path. -/
def writerSpaces (rules : RuleSet) (path : Path) : List Text :=
  (rules.filter (Rule.writes path)).filterMap Rule.space?

/-- In a list of rules that are apart, nothing is collected that is not there already. -/
theorem collected_of_forall_mem (h : Apart Rule.same rules) {list : List Rule}
    (hlist : ∀ rule ∈ list, rule ∈ rules) : collected list = distinct list :=
  collect_eq_distinct Rule.same_iff fun _ hx _ hy =>
    eq_of_apart Rule.same_iff h (hlist _ hx) (hlist _ hy)

/-- The candidates come in the order of the wanted paths and, for one path, in the order of
the rules. -/
theorem candidates_eq (h : Apart Rule.same rules) (wanted : List Path) :
    rules.candidates wanted = distinct (wanted.flatMap rules.writerSpaces) := by
  have hmem : ∀ rule ∈ wanted.flatMap (fun path => rules.filter (Rule.writes path)),
      rule ∈ rules := by
    intro rule hrule
    obtain ⟨path, -, hwriter⟩ := List.mem_flatMap.1 hrule
    exact (List.mem_filter.1 hwriter).1
  have hwriters : rules.writers wanted =
      distinct (wanted.flatMap fun path => rules.filter (Rule.writes path)) :=
    collected_of_forall_mem h hmem
  have hspaces : rules.candidates wanted =
      distinct ((rules.writers wanted).filterMap Rule.space?) := rfl
  rw [hspaces, hwriters, distinct_filterMap_distinct, List.filterMap_flatMap]
  rfl

end RuleSet

/-! ## Clauses -/

/-- A rule about a function: the function, and what is bound.  The marker of outputs is not
found in the name. -/
structure Clause where
  name : FunctionName
  binding : Binding
  unmarked : ∀ segment ∈ Path.segments name.path, ¬ Direction.output.token <+: segment

/-- The function and the direction can be read off the path of an argument. -/
theorem FunctionName.eq_of_argumentPath_eq {name other : FunctionName} {left right : Direction}
    {argument more : Path}
    (h : name.argumentPath left argument = other.argumentPath right more) :
    name.path = other.path ∧ left = right := by
  have hsegments := congrArg Path.segments h
  rw [segments_argumentPath, segments_argumentPath, List.cons.injEq] at hsegments
  have hname : Path.segments name.path <+: Path.segments other.path :=
    prefix_of_prefix_append_cons (name.notToken right) ⟨_, hsegments.2⟩
  have hother : Path.segments other.path <+: Path.segments name.path :=
    prefix_of_prefix_append_cons (other.notToken left) ⟨_, hsegments.2.symm⟩
  have heq : Path.segments name.path = Path.segments other.path :=
    hname.eq_of_length_le hother.length_le
  have hrest := hsegments.2
  rw [heq, List.append_cancel_left_eq, List.cons.injEq] at hrest
  refine ⟨?_, ?_⟩
  · rw [← Path.ofSegments_segments name.path, heq, Path.ofSegments_segments]
  · have htoken := hrest.1
    revert htoken
    cases left <;> cases right <;> decide

namespace Clause

def rule (clause : Clause) : Rule :=
  clause.binding.rule clause.name

/-- Whether the clause puts an output at the path. -/
def writes (path : Path) (clause : Clause) : Bool :=
  clause.binding.direction = .output && Text.sameLetters clause.binding.place.path path

/-- Whether the clause is about an input of the function. -/
def isInputOf (name : Path) (clause : Clause) : Bool :=
  clause.name.path = name && clause.binding.direction = .input

/-- The names of the functions that put an output at one of the paths, in the order of the
paths and then in the order of the clauses. -/
def writerNames (clauses : List Clause) (wanted : List Path) : List Path :=
  (wanted.flatMap fun path => (clauses.filter (writes path)).map (·.name.path)).eraseDups

/-- Whether there is a value for each input of the function. -/
def isReady (document : Document) (clauses : List Clause) (name : Path) : Bool :=
  (clauses.filter (isInputOf name)).all fun clause =>
    (document.resolve? clause.binding.place.path).isSome

theorem writes_rule (path : Path) (clause : Clause) :
    Rule.writes path clause.rule = clause.writes path := by
  simp only [Rule.writes, Rule.isOut, Path.isOut, rule, Binding.direction?_rule, writes,
    Option.some.injEq]
  rfl

theorem space?_rule {clause : Clause} (h : clause.binding.direction = .output) :
    clause.rule.space? = some clause.name.space := by
  rw [Rule.space?, rule, Binding.rule, h, FunctionName.cutAt?_argumentPath clause.unmarked]
  rfl

theorem writerSpaces_clauses (clauses : List Clause) (path : Path) :
    RuleSet.writerSpaces (clauses.map rule) path =
      ((clauses.filter (writes path)).map (·.name.path)).map (Path.functions ++ ·) := by
  have hspace : ∀ clause ∈ clauses.filter (writes path),
      clause.rule.space? = some (Path.functions ++ clause.name.path) := by
    intro clause hclause
    have hwrites := (List.mem_filter.1 hclause).2
    exact space?_rule (by simpa using (Bool.and_eq_true_iff.1 hwrites).1)
  rw [RuleSet.writerSpaces, List.filter_map, List.filterMap_map, List.map_map]
  have hfilter : clauses.filter (Rule.writes path ∘ rule) = clauses.filter (writes path) :=
    List.filter_congr fun clause _ => writes_rule path clause
  rw [hfilter, ← List.filterMap_eq_map]
  exact List.filterMap_congr hspace

/-- The candidates are the namespaces of the functions that write a wanted path. -/
theorem candidates_clauses {clauses : List Clause}
    (hapart : Apart Rule.same (clauses.map rule)) (wanted : List Path) :
    RuleSet.candidates (clauses.map rule) wanted =
      (writerNames clauses wanted).map (Path.functions ++ ·) := by
  have hinjective : Function.Injective (Path.functions ++ · : Path → Text) :=
    fun _ _ h => List.append_cancel_left h
  rw [RuleSet.candidates_eq hapart, writerNames, ← distinct_eq_eraseDups, ← distinct_map hinjective,
    List.map_flatMap]
  congr 2
  funext path
  exact writerSpaces_clauses clauses path

/-- The namespace of the inputs of a function holds the inputs of this function only. -/
theorem hasNamespace_rule_iff (name : FunctionName) (clause : Clause) :
    clause.rule.source.path.hasNamespace (name.space ++ Direction.input.marker ++ ['.']) = true ↔
      clause.isInputOf name.path = true := by
  have hpath : clause.rule.source.path =
      clause.name.argumentPath clause.binding.direction clause.binding.argument.path := rfl
  rw [Path.hasNamespace, List.isPrefixOf_iff_prefix, hpath, isInputOf, Bool.and_eq_true_iff,
    decide_eq_true_iff, decide_eq_true_iff]
  constructor
  · rintro ⟨more, hmore⟩
    have hsame : clause.name.argumentPath clause.binding.direction clause.binding.argument.path =
        name.argumentPath .input more := by
      rw [← hmore]
      simp [FunctionName.argumentPath]
    exact FunctionName.eq_of_argumentPath_eq hsame
  · rintro ⟨hname, hdirection⟩
    refine ⟨clause.binding.argument.path, ?_⟩
    simp [FunctionName.argumentPath, FunctionName.space, hname, hdirection]

/-- The inputs of a function are what is looked at to select it. -/
theorem checked_clauses {clauses : List Clause} (hapart : Apart Rule.same (clauses.map rule))
    (name : FunctionName) :
    RuleSet.checked (clauses.map rule) name.space =
      (clauses.filter (isInputOf name.path)).map rule := by
  rw [RuleSet.checked, FunctionName.join_space, RuleSet.under, name.trimEnd_space_marker,
    RuleSet.collected, collect_of_apart (RuleSet.apart_filter hapart _), List.filter_map]
  congr 1
  refine List.filter_congr fun clause _ => ?_
  rw [Bool.eq_iff_iff]
  exact hasNamespace_rule_iff name clause

/-- A candidate is passed over exactly if one of its inputs has no value. -/
theorem missing_checked {clauses : List Clause} (hapart : Apart Rule.same (clauses.map rule))
    (settings : Settings) (document : Document) (name : FunctionName) :
    ∃ found, (RuleSet.checked (clauses.map rule) name.space).missing settings document =
      .ok found ∧ found.isNone = isReady document clauses name.path := by
  rw [checked_clauses hapart, RuleSet.missing_of_isPlain ?plain]
  case plain => exact List.forall_mem_map.2 fun clause _ => clause.binding.place_isPlain
  refine ⟨_, rfl, ?_⟩
  rw [Option.isNone_map, isReady, Bool.eq_iff_iff, Option.isNone_iff_eq_none,
    List.find?_eq_none, List.forall_mem_map, List.all_eq_true]
  refine forall₂_congr fun clause _ => ?_
  change ¬ (document.resolve? clause.binding.place.path).isNone = true ↔ _
  rw [Option.isNone_iff_eq_none, Option.isSome_iff_ne_none]

/-- The first candidate that is ready is the first function with all its inputs. -/
theorem ready_clauses {clauses : List Clause} (hapart : Apart Rule.same (clauses.map rule))
    (settings : Settings) (document : Document) {names : List Path}
    (hnames : ∀ name ∈ names, ∃ function : FunctionName, function.path = name) :
    RuleSet.ready settings document (clauses.map rule) (names.map (Path.functions ++ ·)) =
      .ok ((names.find? (isReady document clauses)).map (Path.functions ++ ·)) := by
  induction names with
  | nil => rfl
  | cons name rest ih =>
    obtain ⟨function, rfl⟩ := hnames name (by simp)
    obtain ⟨found, hmissing, hfound⟩ := missing_checked hapart settings document function
    rw [FunctionName.space] at hmissing
    rw [List.map_cons, RuleSet.ready, hmissing, List.find?_cons, ← hfound]
    cases found with
    | none => rfl
    | some path => exact ih fun name hname => hnames name (by simp [hname])

theorem exists_of_mem_writerNames {clauses : List Clause} {wanted : List Path} {name : Path}
    (h : name ∈ writerNames clauses wanted) : ∃ function : FunctionName, function.path = name := by
  rw [writerNames, List.mem_eraseDups, List.mem_flatMap] at h
  obtain ⟨path, -, hname⟩ := h
  obtain ⟨clause, -, rfl⟩ := List.mem_map.1 hname
  exact ⟨clause.name, rfl⟩

end Clause

/-! ## Selecting -/

/-- Selection for some wanted paths.  The functions that put an output at one of the paths
are tried in the order of the paths, and then in the order of the rules.  Nothing is
selected if there are none, and otherwise the first one that has a value for each of its
inputs.  If no function has, the error holds the functions, the paths and the document. -/
theorem Session.run_select {rules : RuleSet} {clauses : List Clause}
    (hrules : rules.filter (fun rule => rule.source.path.hasNamespace Path.functions) =
      clauses.map Clause.rule)
    (hapart : Apart Rule.same (clauses.map Clause.rule))
    (settings : Settings) (document : Document) (wanted : List Path) :
    ((select settings rules document wanted).run.1 = .ok none ↔
      Clause.writerNames clauses wanted = []) ∧
    (∀ name, (select settings rules document wanted).run.1 = .ok (some name) ↔
      (Clause.writerNames clauses wanted).find? (Clause.isReady document clauses) = some name) ∧
    (∀ error, (select settings rules document wanted).run.1 = .error error ↔
      Clause.writerNames clauses wanted ≠ [] ∧
      (∀ name ∈ Clause.writerNames clauses wanted,
        Clause.isReady document clauses name = false) ∧
      error = .functionNotFound ((Clause.writerNames clauses wanted).map (Path.functions ++ ·))
        wanted document ∧
      ", input: ".toList ++ document.write <:+ error.message) := by
  have habout : rules.aboutFunctions = clauses.map Clause.rule := by
    rw [RuleSet.aboutFunctions_eq_collected, hrules]
    exact collect_of_apart hapart
  have hready := Clause.ready_clauses hapart settings document
    fun name (hname : name ∈ Clause.writerNames clauses wanted) =>
      Clause.exists_of_mem_writerNames hname
  rw [(gives_select settings document rules wanted []).run_eq.1, habout,
    Clause.candidates_clauses hapart, hready]
  cases hfind : (Clause.writerNames clauses wanted).find? (Clause.isReady document clauses) with
  | some name =>
    have hmem := List.mem_of_find?_eq_some hfind
    have hname := List.find?_some hfind
    simp only [Option.map_some, functionName_append]
    refine ⟨iff_of_false (by simp) (List.ne_nil_of_mem hmem), by simp, fun error => ?_⟩
    refine iff_of_false (by simp) fun h => ?_
    simp [h.2.1 name hmem] at hname
  | none =>
    have hnone : ∀ name ∈ Clause.writerNames clauses wanted,
        Clause.isReady document clauses name = false := by
      simpa using hfind
    by_cases hempty : Clause.writerNames clauses wanted = []
    · simp [hempty]
    · simp only [Option.map_none, List.isEmpty_map, List.isEmpty_iff, if_neg hempty]
      refine ⟨by simp [hempty], by simp, fun error => ⟨fun h => ?_, fun h => ?_⟩⟩
      · obtain rfl := Except.error.inj h
        exact ⟨hempty, hnone, rfl, _, (List.append_assoc _ _ _).symm⟩
      · rw [h.2.2.1]

namespace Session

/-- Two functions that write one path, up to the case of letters, with an input each. -/
def feeClauses : List Clause :=
  [⟨shiftName, ⟨.output, ⟨"flat".toList, []⟩, ⟨"fee.high".toList, []⟩, by decide, by decide,
      by decide⟩, by decide +kernel⟩,
   ⟨Binding.scaleName, ⟨.input, ⟨"base".toList, []⟩, ⟨"price".toList, []⟩, by decide, by decide,
      by decide⟩, by decide +kernel⟩,
   ⟨Binding.scaleName, ⟨.output, ⟨"rate".toList, []⟩, ⟨"Fee.High".toList, []⟩, by decide,
      by decide, by decide⟩, by decide +kernel⟩,
   ⟨shiftName, ⟨.input, ⟨"cap".toList, []⟩, ⟨"limit".toList, []⟩, by decide, by decide,
      by decide⟩, by decide +kernel⟩]

/-- The rules of the clauses, with a rule about no function among them. -/
def feeRules : RuleSet :=
  ⟨⟨"price".toList, []⟩, ⟨"fee.high".toList, []⟩⟩ :: feeClauses.map Clause.rule

theorem run_select_fee :
    (select ⟨.standard, 64⟩ feeRules (.object [("limit".toList, .null), ("price".toList, .null)])
      ["FEE.high".toList]).run.1 = .ok (some "pkg.shift".toList) ∧
    (select ⟨.standard, 64⟩ feeRules (.object [("price".toList, .null)])
      ["FEE.high".toList]).run.1 = .ok (some "pkg.scale".toList) ∧
    (select ⟨.standard, 64⟩ feeRules (.object []) ["FEE.high".toList]).run.1 =
      .error (.functionNotFound ["func.pkg.shift".toList, "func.pkg.scale".toList]
        ["FEE.high".toList] (.object [])) ∧
    (select ⟨.standard, 64⟩ feeRules (.object []) ["price".toList]).run.1 = .ok none := by
  have hrules : feeRules.filter (fun rule =>
      rule.source.path.hasNamespace Path.functions) = feeClauses.map Clause.rule := by
    decide +kernel
  have hapart : Apart Rule.same (feeClauses.map Clause.rule) := by decide +kernel
  have hnames : Clause.writerNames feeClauses ["FEE.high".toList] =
      ["pkg.shift".toList, "pkg.scale".toList] := by decide +kernel
  have hnone : ∀ name ∈ Clause.writerNames feeClauses ["FEE.high".toList],
      Clause.isReady (.object []) feeClauses name = false := by decide +kernel
  refine ⟨?_, ?_, ?_, ?_⟩
  · exact ((run_select hrules hapart ⟨.standard, 64⟩ _ _).2.1 _).2 (by decide +kernel)
  · exact ((run_select hrules hapart ⟨.standard, 64⟩ _ _).2.1 _).2 (by decide +kernel)
  · refine ((run_select hrules hapart ⟨.standard, 64⟩ _ _).2.2 _).2
      ⟨by rw [hnames]; simp, hnone, by rw [hnames]; rfl, _, (List.append_assoc _ _ _).symm⟩
  · exact (run_select hrules hapart ⟨.standard, 64⟩ _ _).1.2 (by decide +kernel)

end Session

end Reshape
