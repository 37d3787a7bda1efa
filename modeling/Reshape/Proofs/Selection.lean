import Reshape.Proofs.Invocation

/-!
# Selecting a function

A candidate is the text before the first occurrence of `.output` in the source of a
rule, also if this occurrence is only the beginning of a longer segment.  A source is
read as a parameter by a different search, which looks for a whole segment.  There are
three groups of results on what follows from this.

* The name that is selected.  `Direction.cutMarker?_eq_of_cutAt?` compares the two
  searches, and `Session.exists_parameter_of_select` says when the name that is selected
  is the name that the source of the rule has as a parameter.
* The inputs that are looked at.  Selection looks for the inputs of a candidate under
  its own namespace of inputs, and a call takes all inputs under the name of the
  function.  `RuleSet.unchecked` is what the call takes in addition, and
  `Session.run_callFor_missingArgument` says that a call for wanted paths fails for a
  missing argument exactly if one of these has no value.
* Names that are separate.  `RuleSet.unchecked_of_separate`: if no function stands in
  the namespace of another one, nothing is taken in addition.
-/

namespace Reshape

/-! ## Two searches for a marker -/

namespace Text

theorem eq_append_of_cutAt? {piece text before rest : Text}
    (h : cutAt? piece text = some (before, rest)) : text = before ++ piece ++ rest := by
  induction text generalizing before with
  | nil =>
    rw [cutAt?] at h
    split at h
    · rename_i hpiece
      obtain ⟨rfl, rfl⟩ : [] = before ∧ [] = rest := by simpa using h
      simpa using hpiece
    · simp at h
  | cons c text ih =>
    rw [cutAt?] at h
    split at h
    · rename_i tail hafter
      obtain ⟨rfl, rfl⟩ : [] = before ∧ tail = rest := by simpa using h
      exact after?_eq_some hafter
    · obtain ⟨⟨head, tail⟩, hcut, hpair⟩ := Option.map_eq_some_iff.1 h
      obtain ⟨rfl, rfl⟩ : c :: head = before ∧ tail = rest := by simpa using hpair
      exact congrArg (c :: ·) (ih hcut)

/-- The piece is not found before its first character. -/
theorem cutAt?_append_of_free {c : Char} {piece text : Text} (h : c ∉ text) (rest : Text) :
    cutAt? (c :: piece) (text ++ rest) =
      (cutAt? (c :: piece) rest).map fun cut => (text ++ cut.1, cut.2) := by
  induction text with
  | nil => simp
  | cons d text ih =>
    have hd : (c == d) = false := beq_false_of_ne fun he => h (List.mem_cons.2 (.inl he))
    have hafter : after? (c :: piece) (d :: (text ++ rest)) = none := by
      simp [after?, List.isPrefixOf?, hd]
    rw [List.cons_append, cutAt?, hafter, ih fun hm => h (by simp [hm]), Option.map_map]
    rfl

end Text

namespace Direction

variable {token text space rest : Text}

/-- The first marker that ends its segment is the first occurrence of its text, or
stands behind it. -/
theorem cutMarker?_eq_of_cutAt? (htoken : '.' ∉ token)
    (h : Text.cutAt? ('.' :: token) text = some (space, rest)) :
    cutMarker? ('.' :: token) text =
      if endsSegment rest then some (space, rest)
      else (cutMarker? ('.' :: token) rest).map fun cut =>
        (space ++ '.' :: token ++ cut.1, cut.2) := by
  induction text generalizing space with
  | nil => simp [Text.cutAt?] at h
  | cons c text ih =>
    rw [Text.cutAt?] at h
    split at h
    · -- the text of the marker stands here; its token has no dot, so the next occurrence
      -- stands behind it
      rename_i tail hafter
      obtain ⟨rfl, rfl⟩ : [] = space ∧ tail = rest := by simpa using h
      obtain ⟨rfl, rfl⟩ : c = '.' ∧ text = token ++ tail := by
        simpa using Text.after?_eq_some hafter
      rw [cutMarker?, hafter, cutMarker?_append_of_free htoken]
      simp [Function.comp_def]
    · rename_i hafter
      obtain ⟨⟨head, tail⟩, hcut, hpair⟩ := Option.map_eq_some_iff.1 h
      obtain ⟨rfl, rfl⟩ : c :: head = space ∧ tail = rest := by simpa using hpair
      rw [cutMarker?, hafter, ih hcut]
      by_cases hends : endsSegment tail = true
      · simp [hends]
      · simp [hends, Function.comp_def]

/-- What stands before the marker is what stands before the first occurrence of its
text, or goes on behind this occurrence. -/
theorem before_cases (htoken : '.' ∉ token)
    (hcut : Text.cutAt? ('.' :: token) text = some (space, rest)) {before after : Text}
    (hmarker : cutMarker? ('.' :: token) text = some (before, after)) :
    endsSegment rest = true ∧ before = space ∨
      endsSegment rest = false ∧ ∃ more, before = space ++ '.' :: token ++ more := by
  rw [cutMarker?_eq_of_cutAt? htoken hcut] at hmarker
  cases hends : endsSegment rest with
  | true =>
    rw [hends, if_pos rfl] at hmarker
    exact .inl ⟨rfl, by simpa using congrArg (Option.map Prod.fst) hmarker.symm⟩
  | false =>
    rw [hends, if_neg (by simp), Option.map_eq_some_iff] at hmarker
    obtain ⟨cut, -, hpair⟩ := hmarker
    exact .inr ⟨rfl, cut.1, (congrArg Prod.fst hpair).symm⟩

end Direction

namespace Path

/-- Only dots are trimmed. -/
theorem countP_trimDots (text : Text) :
    (trimDots text).countP (· != '.') = text.countP (· != '.') := by
  have hdrop : ∀ t : Text, (t.dropWhile (· == '.')).countP (· != '.') = t.countP (· != '.') := by
    intro t
    induction t with
    | nil => rfl
    | cons c t ih =>
      rw [List.dropWhile_cons]
      split
      · rename_i hc
        rw [ih, List.countP_cons_of_neg (by simpa using hc)]
      · rfl
  rw [trimDots, Text.trimBoth, Text.trimEnd, List.countP_reverse, hdrop, List.countP_reverse,
    Text.trimStart, hdrop]

/-- A name that goes on behind a dot and a token is another name. -/
theorem trimDots_append_ne {token : Text} (htoken : 0 < token.countP (· != '.'))
    (name more : Text) : trimDots (name ++ '.' :: token ++ more) ≠ name := by
  intro heq
  have hcount := congrArg (List.countP (· != '.')) heq
  have hdot : ('.' :: token).countP (· != '.') = token.countP (· != '.') := by simp
  rw [countP_trimDots, List.countP_append, List.countP_append, hdot] at hcount
  omega

theorem locate?_of_isOut {path : Path} (h : path.isOut = true) :
    ∃ before after, path.locate? = some ⟨.output, before, after⟩ ∧
      Direction.cutMarker? Direction.output.marker path = some (before, after) := by
  have hdirection : path.direction? = some .output := by simpa [isOut] using h
  rw [direction?, Option.map_eq_some_iff] at hdirection
  obtain ⟨⟨direction, before, after⟩, hlocate, rfl⟩ := hdirection
  have hor := hlocate
  rw [locate?, Option.or_eq_some_iff] at hor
  rcases hor with hinput | ⟨-, houtput⟩
  · obtain ⟨cut, -, hcut⟩ := Option.map_eq_some_iff.1 hinput
    simp at hcut
  · obtain ⟨⟨before', after'⟩, hcut, hpair⟩ := Option.map_eq_some_iff.1 houtput
    obtain ⟨rfl, rfl⟩ : before' = before ∧ after' = after := by simpa using hpair
    exact ⟨before', after', hlocate, hcut⟩

end Path

/-- A candidate that holds no name is the word `func`. -/
theorem eq_func_of_not_prefix {path space rest : Text} (hpath : Path.functions <+: path)
    (hsplit : path = space ++ '.' :: rest) (h : ¬ Path.functions <+: space) :
    space = "func".toList := by
  have hdot : space ++ ['.'] <+: path := ⟨rest, by simp [hsplit]⟩
  have hspace : space <+: path := ⟨'.' :: rest, hsplit.symm⟩
  have hshort : space.length < Path.functions.length := by
    by_contra hlong
    exact h (List.prefix_of_prefix_length_le hpath hspace (by omega))
  obtain ⟨more, hmore⟩ := List.prefix_of_prefix_length_le hdot hpath (by simpa using hshort)
  have hend : Path.functions[space.length]? = some '.' := by simp [← hmore]
  have hlast : ∀ n < Path.functions.length, Path.functions[n]? = some '.' → n = 4 := by decide
  have htake : Path.functions.take space.length = space := by simp [← hmore]
  rw [← htake, hlast _ hshort hend]
  rfl

/-- The name that a parameter has is the text before the marker of the candidate, if
nothing is wrong with the source. -/
theorem trimDots_eq_functionName_iff {path space rest before after : Text}
    (hpath : Path.functions <+: path)
    (hcut : Text.cutAt? Direction.output.marker path = some (space, rest))
    (hmarker : Direction.cutMarker? Direction.output.marker path = some (before, after)) :
    Path.trimDots (before.drop Path.functions.length) = functionName space ↔
      Direction.endsSegment rest = true ∧ Path.functions <+: space ∧
        Path.trimDots (functionName space) = functionName space := by
  have hbefore := Direction.before_cases (by decide) hcut hmarker
  by_cases hspace : Path.functions <+: space
  · obtain ⟨name, rfl⟩ := hspace
    rw [functionName_append]
    rcases hbefore with ⟨hends, rfl⟩ | ⟨hends, more, rfl⟩
    · simp [hends]
    · refine iff_of_false ?_ (by simp [hends])
      rw [List.append_assoc, List.append_assoc, List.drop_left, ← List.append_assoc]
      exact Path.trimDots_append_ne (by decide) name more
  · have hsplit : path = space ++ '.' :: (Direction.output.token ++ rest) := by
      rw [Text.eq_append_of_cutAt? hcut, List.append_assoc]
      rfl
    obtain rfl : space = "func".toList := eq_func_of_not_prefix hpath hsplit hspace
    refine iff_of_false ?_ fun h => hspace h.2.1
    rcases hbefore with ⟨-, rfl⟩ | ⟨-, more, rfl⟩
    · decide
    · -- the name of the parameter begins with the token
      intro heq
      obtain ⟨others, hothers⟩ := Path.trimDots_prefix (Direction.output.token ++ more)
      have hhead : some 'f' = some 'o' :=
        congrArg List.head? ((congrArg (· ++ others) heq).symm.trans hothers)
      exact absurd hhead (by decide)

theorem Parameter.exists_ofPath {path : Path} {located : Located}
    (hpath : Path.functions <+: path) (hlocate : path.locate? = some located) (type : Text) :
    ∃ parameter, ofPath path type = .ok parameter ∧ parameter.direction = located.direction ∧
      parameter.qualified = Path.trimDots (located.before.drop Path.functions.length) := by
  have hnamespace : path.hasNamespace Path.functions = true := List.isPrefixOf_iff_prefix.2 hpath
  simp only [ofPath, hnamespace, hlocate, Bool.not_true, Bool.false_eq_true, if_false]
  exact ⟨_, rfl, rfl, qualifiedName_splitLast (Path.head?_trimDots _)⟩

/-! ## Slices of a set of rules -/

namespace RuleSet

variable {rules : RuleSet} {rule : Rule}

theorem apart_filter (h : Apart Rule.same rules) (p : Rule → Bool) :
    Apart Rule.same (rules.filter p) :=
  List.Pairwise.sublist List.filter_sublist h

theorem apart_collected (list : List Rule) : Apart Rule.same (collected list) :=
  apart_collect Rule.same_iff list

theorem mem_collected_filter (h : Apart Rule.same rules) {p : Rule → Bool} :
    rule ∈ collected (rules.filter p) ↔ rule ∈ rules ∧ p rule = true := by
  rw [collected, collect_of_apart (apart_filter h p), List.mem_filter]

theorem mem_aboutFunctions (h : rule ∈ rules.aboutFunctions) :
    rule ∈ rules ∧ Path.functions <+: rule.source.path := by
  obtain ⟨hmem, hnamespace⟩ := List.mem_filter.1 (mem_of_mem_collect h)
  have hspace : Text.trimEnd (· == '.') Path.functions ++ ['.'] = Path.functions := by decide
  rw [hspace] at hnamespace
  exact ⟨hmem, List.isPrefixOf_iff_prefix.1 hnamespace⟩

theorem apart_aboutFunctions (rules : RuleSet) : Apart Rule.same rules.aboutFunctions :=
  apart_collected _

/-- A candidate is cut out of the source of a rule that writes a wanted path. -/
theorem exists_of_mem_candidates {wanted : List Path} {candidate : Text}
    (h : candidate ∈ rules.candidates wanted) :
    ∃ rule ∈ rules, rule.isOut = true ∧
      (∃ path ∈ wanted, Text.sameLetters rule.target.path path = true) ∧
      ∃ rest, Text.cutAt? Direction.output.marker rule.source.path = some (candidate, rest) := by
  obtain ⟨rule, hrule, hspace⟩ := List.mem_filterMap.1 (mem_distinct.1 h)
  obtain ⟨path, hpath, hwriter⟩ := List.mem_flatMap.1 (mem_of_mem_collect hrule)
  obtain ⟨hmem, hboth⟩ := List.mem_filter.1 hwriter
  obtain ⟨hout, hsame⟩ := Bool.and_eq_true_iff.1 hboth
  obtain ⟨⟨space, rest⟩, hcut, rfl⟩ := Option.map_eq_some_iff.1 hspace
  exact ⟨rule, hmem, hout, ⟨path, hpath, hsame⟩, rest, hcut⟩

/-! ## The candidate that is ready -/

/-- The rules that are looked at to select a candidate. -/
def checked (rules : RuleSet) (candidate : Text) : RuleSet :=
  rules.under (Path.join [candidate, Direction.input.token])

/-- The first candidate none of whose inputs is missing. -/
def ready (settings : Settings) (document : Document) (rules : RuleSet) :
    List Text → Except Projection.Error (Option Text)
  | [] => .ok none
  | candidate :: rest =>
      match (rules.checked candidate).missing settings document with
      | .error error => .error error
      | .ok none => .ok (some candidate)
      | .ok (some _) => ready settings document rules rest

variable {settings : Settings} {document : Document}

theorem missing_eq_none_iff :
    rules.missing settings document = .ok none ↔
      ∀ rule ∈ rules, ∃ value,
        Projection.get settings.maxDepth document rule.target.path = .ok (some value) := by
  induction rules with
  | nil => simp [missing]
  | cons rule rest ih =>
    rw [missing, List.forall_mem_cons]
    split
    · rename_i error hget
      simp [hget]
    · rename_i value hget
      simp [hget, ih]
    · rename_i hget
      simp [hget]

/-- What is there can be left out of the search for what is missing. -/
theorem missing_filter {p : Rule → Bool}
    (h : ∀ rule ∈ rules, p rule = false → ∃ value,
      Projection.get settings.maxDepth document rule.target.path = .ok (some value)) :
    missing settings document (rules.filter p) = rules.missing settings document := by
  induction rules with
  | nil => rfl
  | cons rule rest ih =>
    have hrest := ih fun other hother => h other (by simp [hother])
    cases hp : p rule with
    | true => rw [List.filter_cons_of_pos hp, missing, missing, hrest]
    | false =>
      obtain ⟨value, hget⟩ := h rule (by simp) hp
      rw [List.filter_cons_of_neg (by simp [hp]), hrest]
      simp only [missing, hget]

theorem of_ready_eq_some {candidates : List Text} {candidate : Text}
    (h : rules.ready settings document candidates = .ok (some candidate)) :
    candidate ∈ candidates ∧ (rules.checked candidate).missing settings document = .ok none := by
  induction candidates with
  | nil => simp [ready] at h
  | cons first rest ih =>
    rw [ready] at h
    split at h
    · simp at h
    · rename_i hnone
      obtain rfl : first = candidate := by simpa using h
      exact ⟨by simp, hnone⟩
    · obtain ⟨hmem, hnone⟩ := ih h
      exact ⟨by simp [hmem], hnone⟩

end RuleSet

theorem mapError_eq_ok_iff {ε ε' α : Type} {result : Except ε α} {f : ε → ε'} {value : α} :
    result.mapError f = .ok value ↔ result = .ok value := by
  cases result <;> simp [Except.mapError]

namespace Session

section

variable (settings : Settings) (document : Document)

theorem gives_firstReady (rules : RuleSet) (candidates : List Text)
    (calls : List (Text × Text)) :
    Gives (firstReady settings rules document candidates) calls
      ((rules.ready settings document candidates).mapError .projection) calls := by
  induction candidates with
  | nil => exact gives_pure none calls
  | cons candidate rest ih =>
    have hmissing := gives_missing settings document (rules.checked candidate) calls
    rw [firstReady, RuleSet.ready]
    cases hfirst : (rules.checked candidate).missing settings document with
    | error error =>
      rw [hfirst] at hmissing
      exact hmissing.bind_error _
    | ok found =>
      rw [hfirst] at hmissing
      cases found with
      | none => exact hmissing.bind (gives_pure _ calls)
      | some path => exact hmissing.bind ih

/-- What is selected, given the candidate that is ready. -/
theorem gives_select (rules : RuleSet) (wanted : List Path) (calls : List (Text × Text)) :
    Gives (select settings rules document wanted) calls
      (match rules.aboutFunctions.ready settings document
          (rules.aboutFunctions.candidates wanted) with
        | .error error => .error (.projection error)
        | .ok (some candidate) => .ok (some (functionName candidate))
        | .ok none =>
            if (rules.aboutFunctions.candidates wanted).isEmpty then .ok none
            else .error (.functionNotFound (rules.aboutFunctions.candidates wanted) wanted
              document)) calls := by
  have hready := gives_firstReady settings document rules.aboutFunctions
    (rules.aboutFunctions.candidates wanted) calls
  rw [select]
  by_cases hempty : (rules.aboutFunctions.candidates wanted).isEmpty = true
  · rw [List.isEmpty_iff] at hempty
    rw [hempty]
    exact gives_pure none calls
  · simp only [hempty, if_false, Bool.false_eq_true]
    cases hfirst : rules.aboutFunctions.ready settings document
        (rules.aboutFunctions.candidates wanted) with
    | error error =>
      rw [hfirst] at hready
      exact hready.bind_error _
    | ok found =>
      rw [hfirst] at hready
      cases found with
      | none => exact hready.bind (gives_throw _ calls)
      | some candidate => exact hready.bind (gives_pure _ calls)

end

variable {settings : Settings} {document : Document} {rules : RuleSet} {wanted : List Path}

/-- A name is selected for a candidate that is ready. -/
theorem select_eq_some_iff {name : Text} :
    (select settings rules document wanted).run.1 = .ok (some name) ↔
      ∃ candidate, name = functionName candidate ∧
        rules.aboutFunctions.ready settings document (rules.aboutFunctions.candidates wanted) =
          .ok (some candidate) := by
  rw [(gives_select settings document rules wanted []).run_eq.1]
  split
  · rename_i error hready
    simp [hready]
  · rename_i candidate hready
    simp [hready, eq_comm]
  · rename_i hready
    split <;> simp [hready]

/-- The name that is selected comes from a rule whose source is an output parameter and
whose target is wanted.  It is the text before the first `.output` in the source.  This
is the name of the function of the parameter exactly if that `.output` is a whole
segment, a name stands before it, and there are no stray dots around the name. -/
theorem exists_parameter_of_select {name : Text}
    (h : (select settings rules document wanted).run.1 = .ok (some name)) :
    ∃ rule ∈ rules, ∃ parameter space rest,
      Parameter.ofEndpoint rule.source = .ok parameter ∧ parameter.isOut = true ∧
      (∃ path ∈ wanted, Text.sameLetters rule.target.path path = true) ∧
      Text.cutAt? Direction.output.marker rule.source.path = some (space, rest) ∧
      name = functionName space ∧
      (parameter.qualified = name ↔
        Direction.endsSegment rest = true ∧ Path.functions <+: space ∧
          Path.trimDots name = name) := by
  obtain ⟨candidate, rfl, hready⟩ := select_eq_some_iff.1 h
  obtain ⟨rule, habout, hout, hwanted, rest, hcut⟩ :=
    RuleSet.exists_of_mem_candidates (RuleSet.of_ready_eq_some hready).1
  obtain ⟨hrule, hpath⟩ := RuleSet.mem_aboutFunctions habout
  obtain ⟨before, after, hlocate, hmarker⟩ := Path.locate?_of_isOut hout
  obtain ⟨parameter, hparameter, hdirection, hqualified⟩ :=
    Parameter.exists_ofPath hpath hlocate rule.source.type
  have hisOut : parameter.isOut = true := by simp [Parameter.isOut, hdirection]
  refine ⟨rule, hrule, parameter, candidate, rest, hparameter, hisOut, hwanted, hcut, rfl, ?_⟩
  rw [hqualified]
  exact trimDots_eq_functionName_iff hpath hcut hmarker

theorem exists_parameter_of_select_scale :
    (select ⟨.standard, 2⟩ Binding.scaleRules Binding.scaleDocument ["OUT.m".toList]).run.1 =
      .ok (some "pkg.scale".toList) ∧
    ∃ rule ∈ Binding.scaleRules, ∃ parameter space rest,
      Parameter.ofEndpoint rule.source = .ok parameter ∧ parameter.isOut = true ∧
      (∃ path ∈ ["OUT.m".toList], Text.sameLetters rule.target.path path = true) ∧
      Text.cutAt? Direction.output.marker rule.source.path = some (space, rest) ∧
      "pkg.scale".toList = functionName space ∧
      (parameter.qualified = "pkg.scale".toList ↔
        Direction.endsSegment rest = true ∧ Path.functions <+: space ∧
          Path.trimDots "pkg.scale".toList = "pkg.scale".toList) := by
  have hcandidates : Binding.scaleRules.aboutFunctions.candidates ["OUT.m".toList] =
      ["func.pkg.scale".toList] := by decide +kernel
  have hmissing : (Binding.scaleRules.aboutFunctions.checked "func.pkg.scale".toList).missing
      ⟨.standard, 2⟩ Binding.scaleDocument = .ok none := by
    rw [RuleSet.missing_of_isPlain (by decide +kernel)]
    exact congrArg Except.ok (by decide +kernel)
  have h : (select ⟨.standard, 2⟩ Binding.scaleRules Binding.scaleDocument
      ["OUT.m".toList]).run.1 = .ok (some "pkg.scale".toList) := by
    refine select_eq_some_iff.2 ⟨"func.pkg.scale".toList, by decide, ?_⟩
    rw [hcandidates, RuleSet.ready, hmissing]
  exact ⟨h, exists_parameter_of_select h⟩

/-- An output of a function whose name has a segment that begins with `output`. -/
def outputsRules : RuleSet :=
  [⟨⟨"func.a.outputs.output.x".toList, []⟩, ⟨"t".toList, []⟩⟩]

/-- The function is selected under another name. -/
theorem exists_parameter_of_select_outputs :
    (select ⟨.standard, 64⟩ outputsRules (.object []) ["t".toList]).run.1 =
      .ok (some "a".toList) ∧
    outputsRules.map (fun rule => (Parameter.ofEndpoint rule.source).toOption.map (·.qualified)) =
      [some "a.outputs".toList] := by
  have hcandidates : outputsRules.aboutFunctions.candidates ["t".toList] = ["func.a".toList] := by
    decide +kernel
  have hchecked : outputsRules.aboutFunctions.checked "func.a".toList = [] := by decide +kernel
  constructor
  · refine select_eq_some_iff.2 ⟨"func.a".toList, by decide, ?_⟩
    rw [hcandidates, RuleSet.ready, hchecked]
    rfl
  · decide +kernel

end Session

/-! ## The inputs that a call takes -/

namespace RuleSet

/-- The rules that a call of the function of a candidate takes for its inputs. -/
def taken (rules : RuleSet) (candidate : Text) : RuleSet :=
  (rules.under (Path.functions ++ functionName candidate)).inputs

/-- The inputs that the call takes, and that are not looked at when the candidate is
selected. -/
def unchecked (rules : RuleSet) (candidate : Text) : RuleSet :=
  (rules.taken candidate).filter fun rule => rule ∉ rules.checked candidate

/-- For a candidate that is ready, only what is not looked at can be missing. -/
theorem missing_unchecked {rules : RuleSet} {candidate : Text} {settings : Settings}
    {document : Document}
    (h : (rules.checked candidate).missing settings document = .ok none) :
    (rules.unchecked candidate).missing settings document =
      (rules.taken candidate).missing settings document := by
  refine missing_filter fun rule _ hchecked => ?_
  exact missing_eq_none_iff.1 h rule (by simpa using hchecked)

end RuleSet

namespace Session

variable {α β : Type} {error : Error}

/-- The session does not fail with the error, whatever happened before. -/
def Avoids (session : Session α) (error : Error) : Prop :=
  ∀ trace, (session.runFrom trace).1 ≠ .error error

theorem avoids_of_gives {session : Session α} {result : Except Error α}
    {after : List (Text × Text) → List (Text × Text)}
    (h : ∀ calls, Gives session calls result (after calls)) (hne : result ≠ .error error) :
    Avoids session error := by
  rintro ⟨asked, calls⟩
  obtain ⟨asked', hrun⟩ := h calls asked
  rw [hrun]
  exact hne

theorem Avoids.bind {session : Session α} {next : α → Session β} (h : Avoids session error)
    (hnext : ∀ value, Avoids (next value) error) : Avoids (session >>= next) error := by
  intro trace
  have hfirst := h trace
  rw [runFrom_bind]
  split
  · exact hnext _ _
  · rename_i failure ended heq
    rw [heq] at hfirst
    simpa using hfirst

section

variable (settings : Settings) (document : Document) (callback : Callback) {function path : Text}

theorem avoids_pure (value : α) : Avoids (pure value) error :=
  avoids_of_gives (gives_pure value) (by simp)

theorem avoids_ask (text : Text) :
    Avoids (ask settings document text) (.missingArgument function path) := by
  refine avoids_of_gives (gives_ask settings document text) ?_
  cases Projection.get settings.maxDepth document text <;> simp [Except.mapError]

theorem avoids_call (name payload : Text) :
    Avoids (call callback name payload) (.missingArgument function path) := by
  refine avoids_of_gives (gives_call callback name payload) ?_
  cases callback name payload <;> simp [Except.mapError]

theorem avoids_readDocument (bytes : ByteArray) :
    Avoids (readDocument bytes) (.missingArgument function path) := by
  refine avoids_of_gives (gives_readDocument bytes) ?_
  cases Document.ofBytes? bytes <;> simp

/-- A call fails for a missing argument exactly if one of the inputs that it takes is
missing. -/
theorem invoke_eq_missingArgument_iff (rules : RuleSet) (space : Text) (trace : Trace) :
    ((invoke settings callback rules space document).runFrom trace).1 =
        .error (.missingArgument function path) ↔
      function = functionName space ∧
        (rules.under space).inputs.missing settings document = .ok (some path) := by
  obtain ⟨asked, calls⟩ := trace
  obtain ⟨asked', hrun⟩ := gives_missing settings document (rules.under space).inputs calls asked
  rw [invoke, runFrom_bind, hrun]
  cases hmissing : (rules.under space).inputs.missing settings document with
  | error failure => simp [Except.mapError]
  | ok found =>
    cases found with
    | some first =>
      have hthrow : ∀ (next : PUnit → Session Document) (ended : Trace),
          ((throw (.missingArgument (functionName space) first) >>= next).runFrom ended).1 =
            .error (.missingArgument (functionName space) first) := fun _ _ => rfl
      refine (Eq.congr_left (hthrow _ _)).trans ?_
      simp [eq_comm]
    | none =>
      refine iff_of_false ?_ (by simp)
      refine Avoids.bind (avoids_ask settings document _) (fun payload => ?_) _
      refine (avoids_call callback _ _).bind fun output => ?_
      refine (avoids_readDocument output).bind fun result => ?_
      refine (avoids_ask settings result _).bind fun patch => ?_
      cases patch with
      | none => exact avoids_pure _
      | some patch => exact avoids_pure _

/-- With a candidate that is ready, a call for wanted paths is a call of its function. -/
theorem run_callFor_of_ready {rules : RuleSet} {input : ByteArray} {wanted : List Path}
    {candidate : Text} (hinput : Document.ofBytes? input = some document)
    (hready : rules.aboutFunctions.ready settings document
      (rules.aboutFunctions.candidates wanted) = .ok (some candidate)) :
    ∃ trace, (callFor settings callback rules input wanted).run.1 =
      ((invoke settings callback rules.aboutFunctions
        (Path.functions ++ functionName candidate) document).runFrom trace).1.map .merged := by
  have hread := gives_readDocument input []
  have hselect := gives_select settings document rules wanted []
  rw [hinput] at hread
  rw [hready] at hselect
  obtain ⟨asked, hread⟩ := hread []
  obtain ⟨asked', hselect⟩ := hselect asked
  refine ⟨⟨asked', []⟩, ?_⟩
  have hrun : (callFor settings callback rules input wanted).run =
      (callFor settings callback rules input wanted).runFrom ⟨[], []⟩ := rfl
  rw [hrun, callFor, runFrom_bind, hread]
  simp only []
  rw [runFrom_bind, hselect]
  simp only []
  rw [runFrom_bind]
  split <;> rename_i heq <;> rw [heq] <;> rfl

/-- Without one, no argument is missing. -/
theorem run_callFor_of_not_ready {rules : RuleSet} {input : ByteArray} {wanted : List Path}
    (h : ∀ document candidate, Document.ofBytes? input = some document →
      rules.aboutFunctions.ready settings document (rules.aboutFunctions.candidates wanted) ≠
        .ok (some candidate)) :
    (callFor settings callback rules input wanted).run.1 ≠
      .error (.missingArgument function path) := by
  have hread := gives_readDocument input []
  cases hinput : Document.ofBytes? input with
  | none =>
    rw [hinput] at hread
    have hgives : Gives (callFor settings callback rules input wanted) [] _ _ := hread.bind_error _
    simp [hgives.run_eq.1]
  | some document =>
    rw [hinput] at hread
    have hselect := gives_select settings document rules wanted []
    cases hready : rules.aboutFunctions.ready settings document
        (rules.aboutFunctions.candidates wanted) with
    | error failure =>
      rw [hready] at hselect
      have hgives : Gives (callFor settings callback rules input wanted) [] _ _ :=
        hread.bind (hselect.bind_error _)
      simp [hgives.run_eq.1]
    | ok found =>
      cases found with
      | some candidate => exact absurd hready (h document candidate hinput)
      | none =>
        rw [hready] at hselect
        simp only [] at hselect
        split at hselect
        · have hgives : Gives (callFor settings callback rules input wanted) [] _ _ :=
            hread.bind (hselect.bind (gives_pure _ _))
          simp [hgives.run_eq.1]
        · have hgives : Gives (callFor settings callback rules input wanted) [] _ _ :=
            hread.bind (hselect.bind_error _)
          simp [hgives.run_eq.1]

/-- A call for wanted paths fails for a missing argument exactly if a candidate is ready
and one of the inputs that were not looked at is missing. -/
theorem callFor_eq_missingArgument_iff (rules : RuleSet) (input : ByteArray)
    (wanted : List Path) :
    (callFor settings callback rules input wanted).run.1 =
        .error (.missingArgument function path) ↔
      ∃ document candidate, Document.ofBytes? input = some document ∧
        rules.aboutFunctions.ready settings document (rules.aboutFunctions.candidates wanted) =
          .ok (some candidate) ∧
        function = functionName candidate ∧
        (rules.aboutFunctions.unchecked candidate).missing settings document =
          .ok (some path) := by
  by_cases h : ∃ document candidate, Document.ofBytes? input = some document ∧
      rules.aboutFunctions.ready settings document (rules.aboutFunctions.candidates wanted) =
        .ok (some candidate)
  · obtain ⟨document, candidate, hinput, hready⟩ := h
    obtain ⟨trace, hrun⟩ := run_callFor_of_ready settings document callback hinput hready
    have herror : ∀ result : Except Error Document,
        result.map Outcome.merged = .error (.missingArgument function path) ↔
          result = .error (.missingArgument function path) := by
      intro result
      cases result <;> simp [Except.map]
    rw [hrun, herror, invoke_eq_missingArgument_iff, functionName_append]
    have hmissing := RuleSet.missing_unchecked (RuleSet.of_ready_eq_some hready).2
    constructor
    · rintro ⟨hfunction, hpath⟩
      exact ⟨document, candidate, hinput, hready, hfunction, hmissing.trans hpath⟩
    · rintro ⟨document', candidate', hinput', hready', hfunction, hpath⟩
      obtain rfl : document = document' := by simpa [hinput] using hinput'
      obtain rfl : candidate = candidate' := by simpa [hready] using hready'
      exact ⟨hfunction, hmissing.symm.trans hpath⟩
  · refine iff_of_false (run_callFor_of_not_ready settings callback ?_) ?_
    · exact fun document candidate hinput hready => h ⟨document, candidate, hinput, hready⟩
    · rintro ⟨document, candidate, hinput, hready, -⟩
      exact h ⟨document, candidate, hinput, hready⟩

end

end Session

/-! ## Names that are separate -/

theorem prefix_of_prefix_append_cons {α : Type} {xs ys zs : List α} {z : α} (hz : z ∉ xs)
    (h : xs <+: ys ++ z :: zs) : xs <+: ys := by
  rcases List.prefix_or_prefix_of_prefix h (List.prefix_append ys _) with hprefix | ⟨more, rfl⟩
  · exact hprefix
  · cases more with
    | nil => simp
    | cons first more =>
      obtain rfl : first = z := by
        have hrest := (List.prefix_append_right_inj ys).1 h
        exact (List.cons_prefix_cons.1 hrest).1
      simp at hz

/-- The first occurrence of a marker in a path none of whose segments begins with it. -/
theorem Text.cutAt?_segments {token : Text} (htoken : '.' ∉ token) {segments : List Text}
    (hfree : ∀ segment ∈ segments, '.' ∉ segment)
    (hne : ∀ segment ∈ segments, ¬ token <+: segment) (rest : Text) :
    cutAt? ('.' :: token) (segments.flatMap ('.' :: ·) ++ '.' :: token ++ rest) =
      some (segments.flatMap ('.' :: ·), rest) := by
  induction segments with
  | nil =>
    have hafter : after? ('.' :: token) ('.' :: token ++ rest) = some rest := after?_append _ _
    rw [List.cons_append] at hafter
    rw [List.flatMap_nil, List.nil_append, List.cons_append, cutAt?, hafter]
  | cons segment segments ih =>
    have hrest := ih (fun s hs => hfree s (by simp [hs])) fun s hs => hne s (by simp [hs])
    obtain ⟨more, hmore⟩ : ∃ more,
        segments.flatMap ('.' :: ·) ++ '.' :: token ++ rest = '.' :: more := by
      cases segments <;> exact ⟨_, rfl⟩
    have hafter : after? ('.' :: token) ('.' :: (segment ++ '.' :: more)) = none := by
      by_contra hsome
      obtain ⟨tail, htail⟩ := Option.ne_none_iff_exists'.1 hsome
      have htext : segment ++ '.' :: more = token ++ tail := by
        simpa using after?_eq_some htail
      exact hne segment (by simp) (prefix_of_prefix_append_cons htoken ⟨tail, htext.symm⟩)
    rw [List.flatMap_cons, List.cons_append, List.cons_append, List.cons_append,
      List.append_assoc segment, List.append_assoc segment, hmore, cutAt?, hafter,
      cutAt?_append_of_free (hfree segment (by simp)), ← hmore, hrest]
    rfl

namespace FunctionName

/-- No name stands in the namespace of another one, and no segment of a name begins with
the token of outputs. -/
def Separate (names : List FunctionName) : Prop :=
  ∀ name ∈ names,
    (∀ segment ∈ Path.segments name.path, ¬ Direction.output.token <+: segment) ∧
    ∀ other ∈ names, Path.segments name.path <+: Path.segments other.path →
      name.path = other.path

instance (names : List FunctionName) : Decidable (Separate names) :=
  inferInstanceAs (Decidable (∀ name ∈ names, _))

/-- The candidate that is cut out of the path of an output is the namespace of the
function. -/
theorem cutAt?_argumentPath {name : FunctionName}
    (h : ∀ segment ∈ Path.segments name.path, ¬ Direction.output.token <+: segment)
    (argument : Path) :
    Text.cutAt? Direction.output.marker (name.argumentPath .output argument) =
      some (name.space, '.' :: argument) := by
  have hfree : ∀ segment ∈ Path.segments name.path, '.' ∉ segment := fun segment hs =>
    Text.notMem_of_isPlain (Path.isPlain_of_mem_segments name.isPlain hs) (by decide)
  have hpath : name.argumentPath .output argument = "func".toList ++
      ((Path.segments name.path).flatMap ('.' :: ·) ++ '.' :: Direction.output.token ++
        '.' :: argument) := by
    rw [argumentPath_eq, List.flatMap_append, List.flatMap_cons,
      ← Text.dot_cons_eq_flatMap argument]
    simp
  rw [hpath, Direction.marker, Text.cutAt?_append_of_free (by decide),
    Text.cutAt?_segments (by decide) hfree h, ← Text.dot_cons_eq_flatMap]
  rfl

/-- An input in the namespace of a function is an input of this function. -/
theorem eq_of_prefix_argumentPath {names : List FunctionName} (hnames : Separate names)
    {name other : FunctionName} (hname : name ∈ names) (hother : other ∈ names)
    {direction : Direction} {argument : Path}
    (h : name.space ++ ['.'] <+: other.argumentPath direction argument) :
    name.path = other.path := by
  obtain ⟨more, hmore⟩ := h
  have hsegments := congrArg Path.segments hmore
  rw [List.append_assoc, List.singleton_append, Path.segments_append_dot, segments_space,
    segments_argumentPath, List.cons_append, List.cons.injEq] at hsegments
  have hprefix : Path.segments name.path <+:
      Path.segments other.path ++ direction.token :: Path.segments argument :=
    ⟨Path.segments more, hsegments.2⟩
  exact (hnames name hname).2 other hother
    (prefix_of_prefix_append_cons (name.notToken direction) hprefix)

theorem join_space (name : FunctionName) (direction : Direction) :
    Path.join [name.space, direction.token] = name.space ++ direction.marker := by
  have hdots : Path.trimDots name.space = name.space :=
    Path.trimEnd_of_isPlain name.isPlain Path.functions
  have htoken : Path.trimDots direction.token = direction.token := by cases direction <;> rfl
  have hempty : name.space.isEmpty = false := rfl
  have htokenEmpty : direction.token.isEmpty = false := by cases direction <;> rfl
  simp [Path.join, hempty, htokenEmpty, hdots, htoken, Path.ofSegments, Text.join,
    Direction.marker]

/-- The namespace of the inputs of a function does not end with a dot. -/
theorem trimEnd_space_marker (name : FunctionName) :
    Text.trimEnd (· == '.') (name.space ++ Direction.input.marker) =
      name.space ++ Direction.input.marker := by
  have hplain : Path.isPlain Direction.input.token = true := by decide
  simpa [Direction.marker] using Path.trimEnd_of_isPlain hplain (name.space ++ ['.'])

end FunctionName

namespace RuleSet

variable {names : List FunctionName} {rules : RuleSet}

/-- The rules about functions bind arguments of the named functions. -/
def BindsOnly (names : List FunctionName) (rules : RuleSet) : Prop :=
  ∀ rule ∈ rules, Path.functions <+: rule.source.path →
    ∃ name ∈ names, ∃ binding, rule = Binding.rule name binding

theorem BindsOnly.exists_of_mem (h : BindsOnly names rules) {rule : Rule}
    (hrule : rule ∈ rules.aboutFunctions) :
    ∃ name ∈ names, ∃ binding, rule = Binding.rule name binding := by
  obtain ⟨hmem, hpath⟩ := mem_aboutFunctions hrule
  exact h rule hmem hpath

/-- A candidate is the namespace of a function. -/
theorem exists_name_of_mem_candidates (hnames : FunctionName.Separate names)
    (h : BindsOnly names rules) {wanted : List Path} {candidate : Text}
    (hcandidate : candidate ∈ rules.aboutFunctions.candidates wanted) :
    ∃ name ∈ names, candidate = name.space := by
  obtain ⟨rule, hrule, hout, -, rest, hcut⟩ := exists_of_mem_candidates hcandidate
  obtain ⟨name, hname, binding, rfl⟩ := h.exists_of_mem hrule
  have hdirection : binding.direction = .output := by
    simpa [Rule.isOut, Path.isOut, Binding.direction?_rule] using hout
  have hpath : (binding.rule name).source.path =
      name.argumentPath .output binding.argument.path := by
    rw [Binding.rule, hdirection]
  rw [hpath, FunctionName.cutAt?_argumentPath (hnames name hname).1] at hcut
  have hpair : name.space = candidate ∧ '.' :: binding.argument.path = rest := by simpa using hcut
  exact ⟨name, hname, hpair.1.symm⟩

/-- All inputs that the call of a function takes are looked at when it is selected. -/
theorem unchecked_of_separate (hnames : FunctionName.Separate names) (h : BindsOnly names rules)
    {name : FunctionName} (hname : name ∈ names) :
    rules.aboutFunctions.unchecked name.space = [] := by
  rw [unchecked, List.filter_eq_nil_iff]
  intro rule hrule
  have hspace : Text.trimEnd (· == '.') name.space = name.space :=
    Path.trimEnd_of_isPlain name.isPlain Path.functions
  rw [taken, functionName_space, ← FunctionName.space] at hrule
  obtain ⟨hunder, hin⟩ := List.mem_filter.1 (mem_of_mem_collect hrule)
  obtain ⟨habout, hnamespace⟩ := List.mem_filter.1 (mem_of_mem_collect hunder)
  rw [hspace] at hnamespace
  obtain ⟨other, hother, binding, rfl⟩ := h.exists_of_mem habout
  have hdirection : binding.direction = .input := by
    simpa [Rule.isIn, Path.isIn, Binding.direction?_rule] using hin
  have hpath : name.path = other.path :=
    FunctionName.eq_of_prefix_argumentPath hnames hname hother
      (List.isPrefixOf_iff_prefix.1 hnamespace)
  have hchecked : binding.rule other ∈ rules.aboutFunctions.checked name.space := by
    rw [checked, FunctionName.join_space, under, name.trimEnd_space_marker,
      mem_collected_filter (apart_aboutFunctions rules)]
    refine ⟨habout, List.isPrefixOf_iff_prefix.2 ⟨binding.argument.path, ?_⟩⟩
    simp [Binding.rule, FunctionName.argumentPath, FunctionName.space, hdirection, hpath]
  simpa using hchecked

end RuleSet

/-! ## Selecting and calling -/

namespace Session

/-- A call for wanted paths fails for a missing argument exactly if a candidate is
selected and one of the inputs that were not looked at, but that the call takes, has no
value.  It never does if the rules bind the arguments of functions with separate
names. -/
theorem run_callFor_missingArgument (settings : Settings) (callback : Callback) (rules : RuleSet)
    (input : ByteArray) (wanted : List Path) :
    (∀ function path,
      (callFor settings callback rules input wanted).run.1 =
          .error (.missingArgument function path) ↔
        ∃ document candidate, Document.ofBytes? input = some document ∧
          (firstReady settings rules.aboutFunctions document
            (rules.aboutFunctions.candidates wanted)).run.1 = .ok (some candidate) ∧
          function = functionName candidate ∧
          (missingTarget settings document (rules.aboutFunctions.unchecked candidate)).run.1 =
            .ok (some path)) ∧
    ∀ names, FunctionName.Separate names → rules.BindsOnly names →
      ∀ function path, (callFor settings callback rules input wanted).run.1 ≠
        .error (.missingArgument function path) := by
  constructor
  · intro function path
    simp only [(gives_firstReady settings _ _ _ []).run_eq.1,
      (gives_missing settings _ _ []).run_eq.1, mapError_eq_ok_iff]
    exact callFor_eq_missingArgument_iff settings callback rules input wanted
  · intro names hnames hrules function path h
    obtain ⟨document, candidate, -, hready, -, hmissing⟩ :=
      (callFor_eq_missingArgument_iff settings callback rules input wanted).1 h
    obtain ⟨name, hname, rfl⟩ := RuleSet.exists_name_of_mem_candidates hnames hrules
      (RuleSet.of_ready_eq_some hready).1
    rw [RuleSet.unchecked_of_separate hnames hrules hname] at hmissing
    simp [RuleSet.missing] at hmissing

/-- A second function of the package. -/
def shiftName : FunctionName :=
  ⟨"pkg.shift".toList, by decide, by decide, by decide⟩

/-- Two functions that write one path. -/
def packageRules : RuleSet :=
  Binding.scaleRules ++ [Binding.rule shiftName
    ⟨.output, ⟨"sum".toList, []⟩, ⟨"out.m".toList, []⟩, by decide, by decide, by decide⟩]

/-- The second function gives one result, whatever its arguments. -/
def shiftCallback : Callback :=
  fun _ _ => .ok "\x7b\"sum\":5\x7d".toUTF8

/-- The arguments of the first function are not there, so the second one is called. -/
theorem run_callFor_missingArgument_package :
    let ended := (callFor ⟨.standard, 64⟩ shiftCallback packageRules "\x7b\x7d".toUTF8
      ["out.m".toList]).run
    FunctionName.Separate [Binding.scaleName, shiftName] ∧
    packageRules.BindsOnly [Binding.scaleName, shiftName] ∧
    (∀ function path, ended.1 ≠ .error (.missingArgument function path)) ∧
    ended.2.calls = [("pkg.shift".toList, "\x7b\x7d".toList)] ∧
    (ended.1.map (Outcome.bytes "\x7b\x7d".toUTF8)).toOption =
      some "\x7b\"out\":\x7b\"m\":5\x7d\x7d".toUTF8 := by
  have hnames : FunctionName.Separate [Binding.scaleName, shiftName] := by decide +kernel
  have hrules : packageRules.BindsOnly [Binding.scaleName, shiftName] := by
    intro rule hrule hpath
    rcases List.mem_append.1 hrule with hscale | hshift
    · rcases List.mem_cons.1 hscale with rfl | hbinding
      · exact absurd hpath (by decide)
      · obtain ⟨binding, -, rfl⟩ := List.mem_map.1 hbinding
        exact ⟨_, by simp, binding, rfl⟩
    · exact ⟨shiftName, by simp, _, List.mem_singleton.1 hshift⟩
  exact ⟨hnames, hrules, (run_callFor_missingArgument _ _ _ _ _).2 _ hnames hrules,
    by decide +kernel, by decide +kernel⟩

/-- A function that stands in the namespace of another one. -/
def nestedRules : RuleSet :=
  [⟨⟨"func.a.output.r".toList, []⟩, ⟨"out".toList, []⟩⟩,
   ⟨⟨"func.a.b.input.x".toList, []⟩, ⟨"missing".toList, []⟩⟩]

/-- The input of the inner function is taken for one of the outer function. -/
theorem run_callFor_nested :
    (select ⟨.standard, 64⟩ nestedRules (.object []) ["out".toList]).run.1 =
      .ok (some "a".toList) ∧
    (callFor ⟨.standard, 64⟩ Binding.scaleCallback nestedRules "\x7b\x7d".toUTF8
      ["out".toList]).run.1 = .error (.missingArgument "a".toList "missing".toList) := by
  have hcandidates : nestedRules.aboutFunctions.candidates ["out".toList] =
      ["func.a".toList] := by decide +kernel
  have hchecked : nestedRules.aboutFunctions.checked "func.a".toList = [] := by decide +kernel
  have hready : nestedRules.aboutFunctions.ready ⟨.standard, 64⟩ (.object [])
      (nestedRules.aboutFunctions.candidates ["out".toList]) = .ok (some "func.a".toList) := by
    rw [hcandidates, RuleSet.ready, hchecked]
    rfl
  have hunchecked : nestedRules.aboutFunctions.unchecked "func.a".toList =
      [⟨⟨"func.a.b.input.x".toList, []⟩, ⟨"missing".toList, []⟩⟩] := by decide +kernel
  have hinput : Document.ofBytes? "\x7b\x7d".toUTF8 = some (.object []) := by cbv
  refine ⟨select_eq_some_iff.2 ⟨_, by decide, hready⟩, ?_⟩
  rw [callFor_eq_missingArgument_iff]
  refine ⟨_, _, hinput, hready, by decide, ?_⟩
  rw [hunchecked, RuleSet.missing_of_isPlain (by decide)]
  rfl

end Session

end Reshape
