import Reshape.Proofs.Binding
import Reshape.Proofs.Outline

/-!
# Calling a function

What a call does, end to end.  `Binding.answer` says it without namespaces and
without a trace: look for the arguments, build the payload, call, read what comes
back, and patch the document.  `Session.gives_invoke` says that a session does just
that, and `Session.run_callFirst` spells out what the payload and the patch are.
-/

namespace Reshape

/-! ## Running a session -/

namespace Session

variable {α β : Type}

/-- Runs a session from a trace. -/
def runFrom (session : Session α) (trace : Trace) : Except Error α × Trace :=
  Id.run (StateT.run (ExceptT.run session) trace)

theorem runFrom_bind (session : Session α) (next : α → Session β) (trace : Trace) :
    runFrom (session >>= next) trace =
      match session.runFrom trace with
      | (.ok value, trace) => (next value).runFrom trace
      | (.error error, trace) => (.error error, trace) := by
  simp only [runFrom, bind, ExceptT.bind, ExceptT.run, ExceptT.mk, ExceptT.bindCont, StateT.bind,
    StateT.run, Id.run]
  generalize session trace = result
  obtain ⟨value | error, trace⟩ := result <;> rfl

/-- After the calls `before`, the session ends with a result and with the calls
`after`, whatever was asked. -/
def Gives (session : Session α) (before : List (Text × Text)) (result : Except Error α)
    (after : List (Text × Text)) : Prop :=
  ∀ asked, ∃ asked', session.runFrom ⟨asked, before⟩ = (result, ⟨asked', after⟩)

variable {before between after : List (Text × Text)}

theorem gives_pure (value : α) (calls : List (Text × Text)) :
    Gives (pure value) calls (.ok value) calls :=
  fun asked => ⟨asked, rfl⟩

theorem gives_throw (error : Error) (calls : List (Text × Text)) :
    Gives (throw error : Session α) calls (.error error) calls :=
  fun asked => ⟨asked, rfl⟩

theorem Gives.bind {session : Session α} {value : α} {next : α → Session β}
    {result : Except Error β} (h : Gives session before (.ok value) between)
    (hnext : Gives (next value) between result after) :
    Gives (session >>= next) before result after := by
  intro asked
  obtain ⟨middle, hmiddle⟩ := h asked
  rw [runFrom_bind, hmiddle]
  exact hnext middle

theorem Gives.bind_error {session : Session α} {error : Error}
    (h : Gives session before (.error error) after) (next : α → Session β) :
    Gives (session >>= next) before (.error error) after := by
  intro asked
  obtain ⟨middle, hmiddle⟩ := h asked
  rw [runFrom_bind, hmiddle]
  exact ⟨middle, rfl⟩

/-- What a whole run gives. -/
theorem Gives.run_eq {session : Session α} {result : Except Error α}
    (h : Gives session [] result after) : session.run.1 = result ∧ session.run.2.calls = after := by
  obtain ⟨asked, hended⟩ := h []
  exact ⟨congrArg Prod.fst hended, congrArg (·.2.calls) hended⟩

theorem gives_ask (settings : Settings) (document : Document) (text : Text)
    (calls : List (Text × Text)) :
    Gives (ask settings document text) calls
      ((Projection.get settings.maxDepth document text).mapError .projection) calls := by
  intro asked
  refine ⟨asked ++ [(text, Projection.get settings.maxDepth document text)], ?_⟩
  unfold ask
  rw [runFrom_bind]
  cases Projection.get settings.maxDepth document text with
  | error error => rfl
  | ok value => rfl

theorem gives_call (callback : Callback) (name payload : Text) (calls : List (Text × Text)) :
    Gives (call callback name payload) calls ((callback name payload).mapError (.callback name))
      (calls ++ [(name, payload)]) := by
  intro asked
  refine ⟨asked, ?_⟩
  unfold call
  rw [runFrom_bind]
  cases callback name payload with
  | error message => rfl
  | ok bytes => rfl

theorem gives_readDocument (bytes : ByteArray) (calls : List (Text × Text)) :
    Gives (readDocument bytes) calls
      (match Document.ofBytes? bytes with
        | some document => .ok document
        | none => .error .json) calls := by
  intro asked
  refine ⟨asked, ?_⟩
  unfold readDocument
  cases Document.ofBytes? bytes with
  | none => rfl
  | some document => rfl

end Session

/-! ## Looking for the arguments -/

/-- The value at a path of keys. -/
def Document.resolve? (path : Path) (document : Document) : Option Document :=
  evalPath? ((Path.segments path).map .key) document

theorem Path.steps?_of_isPlain {path : Path} (h : path.isPlain = true) :
    steps? path = some ((segments path).map .key) := by
  rw [steps?]
  apply Projection.mapM_ofText?
  intro key hkey
  exact Projection.ofText?_of_isPlain (isPlain_of_mem_segments h hkey)

/-- Asking for a path of keys resolves it. -/
theorem Projection.get_of_isPlain {path : Path} (h : path.isPlain = true) (maxDepth : Nat)
    (document : Document) : get maxDepth document path = .ok (document.resolve? path) := by
  have hrenders := (RendersStage.path (Path.steps?_of_isPlain h)).renders
  rw [hrenders.get_eq, evaluate, if_neg (by simp [Expression.depth, Stage.depth])]
  simp [Expression.eval?, Expression.pass?, Stage.eval?, Document.resolve?]

namespace Binding

/-- The first binding whose place is not in the document. -/
def missing? (document : Document) (bindings : List Binding) : Option Binding :=
  bindings.find? fun binding => (document.resolve? binding.place.path).isNone

/-- The rules by which the payload is built. -/
def inputRules (bindings : List Binding) : RuleSet :=
  (along .input bindings).map inward

/-- The rules by which the patch is built. -/
def outputRules (bindings : List Binding) : RuleSet :=
  (along .output bindings).map outward

/-- What is done with the bytes that a function gives. -/
def settle (settings : Settings) (bindings : List Binding) (document : Document)
    (output : ByteArray) : Except Error Document :=
  match Document.ofBytes? output with
  | none => .error .json
  | some result =>
      match Projection.get settings.maxDepth result
          ((outputRules bindings).compile settings.coercions) with
      | .error error => .error (.projection error)
      | .ok none => .ok document
      | .ok (some patch) => .ok (document.patch patch)

/-- What calling a function gives, and the calls that are made. -/
def answer (settings : Settings) (callback : Callback) (name : FunctionName)
    (bindings : List Binding) (document : Document) :
    Except Error Document × List (Text × Text) :=
  match missing? document (along .input bindings) with
  | some binding => (.error (.missingArgument name.path binding.place.path), [])
  | none =>
      match Projection.get settings.maxDepth document
          ((inputRules bindings).compile settings.coercions) with
      | .error error => (.error (.projection error), [])
      | .ok payload =>
          let text := (payload.getD (.object [])).write
          (match callback name.path text with
            | .error message => .error (.callback name.path message)
            | .ok output => settle settings bindings document output,
           [(name.path, text)])

end Binding

/-- The first target of the rules that has no value on the document. -/
def RuleSet.missing (settings : Settings) (document : Document) :
    RuleSet → Except Projection.Error (Option Path)
  | [] => .ok none
  | rule :: rest =>
      match Projection.get settings.maxDepth document rule.target.path with
      | .error error => .error error
      | .ok (some _) => missing settings document rest
      | .ok none => .ok (some rule.target.path)

theorem Session.gives_missing (settings : Settings) (document : Document) (rules : RuleSet)
    (calls : List (Text × Text)) :
    Gives (missingTarget settings document rules) calls
      ((rules.missing settings document).mapError .projection) calls := by
  induction rules with
  | nil => exact gives_pure none calls
  | cons rule rest ih =>
    have hask := gives_ask settings document rule.target.path calls
    rw [missingTarget, RuleSet.missing]
    cases hget : Projection.get settings.maxDepth document rule.target.path with
    | error error =>
      rw [hget] at hask
      exact hask.bind_error _
    | ok value =>
      rw [hget] at hask
      cases value with
      | none => exact hask.bind (gives_pure _ calls)
      | some value => exact hask.bind ih

/-- Targets that are paths of keys are resolved one after the other. -/
theorem RuleSet.missing_of_isPlain {rules : RuleSet}
    (h : ∀ rule ∈ rules, rule.target.path.isPlain = true) (settings : Settings)
    (document : Document) :
    rules.missing settings document =
      .ok ((rules.find? fun rule => (document.resolve? rule.target.path).isNone).map
        (·.target.path)) := by
  induction rules with
  | nil => rfl
  | cons rule rest ih =>
    rw [missing, Projection.get_of_isPlain (h rule (by simp)), List.find?_cons]
    cases document.resolve? rule.target.path with
    | none => rfl
    | some value => exact ih fun other hother => h other (by simp [hother])

theorem Session.gives_missingTarget (settings : Settings) (document : Document)
    (name : FunctionName) (bindings : List Binding) (calls : List (Text × Text)) :
    Gives (missingTarget settings document (bindings.map (Binding.rule name))) calls
      (.ok ((Binding.missing? document bindings).map (·.place.path))) calls := by
  have hplain : ∀ rule ∈ bindings.map (Binding.rule name),
      rule.target.path.isPlain = true :=
    List.forall_mem_map.2 fun binding _ => binding.place_isPlain
  have hmissing := gives_missing settings document (bindings.map (Binding.rule name)) calls
  rw [RuleSet.missing_of_isPlain hplain, List.find?_map, Option.map_map] at hmissing
  exact hmissing

/-! ## The call -/

theorem functionName_append (name : Text) : functionName (Path.functions ++ name) = name := by
  rw [functionName, Text.after?_append]
  rfl

theorem functionName_space (name : FunctionName) : functionName name.space = name.path :=
  functionName_append name.path

/-- The part of a call that follows the call proper. -/
theorem Session.gives_settle (settings : Settings) (bindings : List Binding)
    (document : Document) (output : ByteArray) (calls : List (Text × Text)) :
    Gives (do
        let result ← readDocument output
        match ← ask settings result
            ((Binding.outputRules bindings).compile settings.coercions) with
        | some patch => return document.patch patch
        | none => return document)
      calls (Binding.settle settings bindings document output) calls := by
  have hread := gives_readDocument output calls
  rw [Binding.settle]
  cases hresult : Document.ofBytes? output with
  | none =>
    rw [hresult] at hread
    exact hread.bind_error _
  | some result =>
    rw [hresult] at hread
    refine hread.bind ?_
    have hask := gives_ask settings result
      ((Binding.outputRules bindings).compile settings.coercions) calls
    cases hpatch : Projection.get settings.maxDepth result
        ((Binding.outputRules bindings).compile settings.coercions) with
    | error error =>
      rw [hpatch] at hask
      simp only [hpatch]
      exact hask.bind_error _
    | ok patch =>
      rw [hpatch] at hask
      simp only [hpatch]
      cases patch with
      | none => exact hask.bind (gives_pure document calls)
      | some patch => exact hask.bind (gives_pure (document.patch patch) calls)

/-- A session calls the function of some bindings, with the bindings alone. -/
theorem Session.gives_invoke (settings : Settings) (callback : Callback) {name : FunctionName}
    {bindings : List Binding} (h : Apart Rule.same (bindings.map (Binding.rule name)))
    (document : Document) (calls : List (Text × Text)) :
    Gives (invoke settings callback (bindings.map (Binding.rule name)) name.space document) calls
      (Binding.answer settings callback name bindings document).1
      (calls ++ (Binding.answer settings callback name bindings document).2) := by
  have hmissing := gives_missingTarget settings document name (Binding.along .input bindings) calls
  rw [invoke, functionName_space, RuleSet.under_space h, RuleSet.inputs_bindings h,
    RuleSet.payloadProjection_bindings h, RuleSet.resultProjection_bindings h]
  rw [Binding.answer]
  cases hfirst : Binding.missing? document (Binding.along .input bindings) with
  | some binding =>
    rw [hfirst] at hmissing
    rw [List.append_nil]
    exact hmissing.bind (Gives.bind_error (gives_throw _ calls) _)
  | none =>
    rw [hfirst] at hmissing
    refine hmissing.bind ?_
    have hask := gives_ask settings document
      (RuleSet.compile settings.coercions (Binding.inputRules bindings)) calls
    cases hpayload : Projection.get settings.maxDepth document
        (RuleSet.compile settings.coercions (Binding.inputRules bindings)) with
    | error error =>
      rw [hpayload] at hask
      rw [List.append_nil]
      exact hask.bind_error _
    | ok payload =>
      rw [hpayload] at hask
      refine hask.bind ?_
      have hcall := gives_call callback name.path (payload.getD (.object [])).write calls
      cases houtput : callback name.path (payload.getD (.object [])).write with
      | error message =>
        rw [houtput] at hcall
        simp only [houtput]
        exact hcall.bind_error _
      | ok output =>
        rw [houtput] at hcall
        simp only [houtput]
        exact hcall.bind (gives_settle settings bindings document output _)

/-! ## The rules about functions -/

/-- The identity of a rule: its four texts, with the case of letters left out. -/
def Rule.identity (rule : Rule) : (Text × Text) × (Text × Text) :=
  ((rule.source.path.foldCase, rule.source.type.foldCase),
    (rule.target.path.foldCase, rule.target.type.foldCase))

theorem Rule.same_iff (left right : Rule) :
    Rule.same left right = true ↔ left.identity = right.identity := by
  simp [Rule.same, Endpoint.same, Text.sameLetters, Rule.identity]

namespace RuleSet

variable {rules : RuleSet} {name : FunctionName} {bindings : List Binding}

theorem aboutFunctions_eq_collected (rules : RuleSet) : rules.aboutFunctions =
    collected (rules.filter fun rule => rule.source.path.hasNamespace Path.functions) := by
  have hspace : Text.trimEnd (· == '.') Path.functions ++ ['.'] = Path.functions := by decide
  rw [aboutFunctions, under, hspace]

theorem aboutFunctions_eq (hrules : rules.filter (fun rule =>
      rule.source.path.hasNamespace Path.functions) = bindings.map (Binding.rule name)) :
    rules.aboutFunctions = collected (bindings.map (Binding.rule name)) := by
  rw [aboutFunctions_eq_collected, hrules]

theorem aboutFunctions_eq_nil_iff (hrules : rules.filter (fun rule =>
      rule.source.path.hasNamespace Path.functions) = bindings.map (Binding.rule name)) :
    rules.aboutFunctions = [] ↔ bindings = [] := by
  rw [aboutFunctions_eq hrules]
  constructor
  · intro hnil
    by_contra hne
    exact collect_ne_nil (by simpa using hne) hnil
  · rintro rfl
    rfl

/-- The rules about functions are those of some of the bindings, which are apart. -/
theorem exists_aboutFunctions (hrules : rules.filter (fun rule =>
      rule.source.path.hasNamespace Path.functions) = bindings.map (Binding.rule name)) :
    ∃ chosen : List Binding, (∀ binding ∈ chosen, binding ∈ bindings) ∧
      Apart Rule.same (chosen.map (Binding.rule name)) ∧
      rules.aboutFunctions = chosen.map (Binding.rule name) := by
  have hmap : ∀ list : RuleSet, (∀ rule ∈ list, rule ∈ bindings.map (Binding.rule name)) →
      ∃ chosen : List Binding, (∀ binding ∈ chosen, binding ∈ bindings) ∧
        list = chosen.map (Binding.rule name) := by
    intro list
    induction list with
    | nil => exact fun _ => ⟨[], by simp, rfl⟩
    | cons rule list ih =>
      intro hmem
      obtain ⟨binding, hbinding, rfl⟩ := List.mem_map.1 (hmem rule (by simp))
      obtain ⟨chosen, hchosen, rfl⟩ := ih fun other hother => hmem other (by simp [hother])
      exact ⟨binding :: chosen, by simpa [hbinding] using hchosen, rfl⟩
  obtain ⟨chosen, hchosen, heq⟩ := hmap (collected (bindings.map (Binding.rule name)))
    fun rule hrule => mem_of_mem_collect hrule
  refine ⟨chosen, hchosen, ?_, ?_⟩
  · rw [← heq]
    exact apart_collect Rule.same_iff _
  · rw [aboutFunctions_eq hrules, heq]

end RuleSet

namespace Session

/-- Without rules about functions the input stands. -/
theorem gives_callFirst_of_nil (settings : Settings) (callback : Callback) {rules : RuleSet}
    (h : rules.aboutFunctions = []) (input : ByteArray) (calls : List (Text × Text)) :
    Gives (callFirst settings callback rules input) calls (.ok .unchanged) calls := by
  rw [callFirst, h]
  exact gives_pure _ calls

/-- The rules of one function lead to a call of that function. -/
theorem gives_callFirst (settings : Settings) (callback : Callback) {rules : RuleSet}
    {name : FunctionName} {bindings : List Binding} (hne : bindings ≠ [])
    (h : Apart Rule.same (bindings.map (Binding.rule name)))
    (habout : rules.aboutFunctions = bindings.map (Binding.rule name))
    {input : ByteArray} {document : Document} (hinput : Document.ofBytes? input = some document)
    (calls : List (Text × Text)) :
    Gives (callFirst settings callback rules input) calls
      ((Binding.answer settings callback name bindings document).1.map .merged)
      (calls ++ (Binding.answer settings callback name bindings document).2) := by
  obtain ⟨signature, rest, hsignatures, hspace⟩ := RuleSet.signatures_bindings name hne
  have hread := gives_readDocument input calls
  rw [hinput] at hread
  have hinvoke := gives_invoke settings callback h document calls
  rw [callFirst, habout, hsignatures]
  simp only [hspace]
  refine hread.bind ?_
  cases hanswer : (Binding.answer settings callback name bindings document).1 with
  | error error =>
    rw [hanswer] at hinvoke
    exact hinvoke.bind_error _
  | ok result =>
    rw [hanswer] at hinvoke
    exact hinvoke.bind (gives_pure _ _)

end Session

/-! ## Payload and patch -/

namespace Binding

theorem isPlain_inputRules (bindings : List Binding) : (inputRules bindings).IsPlain := by
  constructor
  · intro rule hrule
    obtain ⟨binding, -, rfl⟩ := List.mem_map.1 hrule
    exact binding.argument_isPlain
  · intro rule hrule
    obtain ⟨binding, -, rfl⟩ := List.mem_map.1 hrule
    refine .inr ?_
    rw [Path.IsReadable, inward, Path.steps?_of_isPlain binding.place_isPlain]
    rfl

theorem isPlain_outputRules (bindings : List Binding) : (outputRules bindings).IsPlain := by
  constructor
  · intro rule hrule
    obtain ⟨binding, -, rfl⟩ := List.mem_map.1 hrule
    exact binding.place_isPlain
  · intro rule hrule
    obtain ⟨binding, -, rfl⟩ := List.mem_map.1 hrule
    refine .inr ?_
    rw [Path.IsReadable, outward, Path.steps?_of_isPlain binding.argument_isPlain]
    rfl

variable {bindings : List Binding} {maxDepth : Nat}

/-- The payload is the outcome of the input rules. -/
theorem answer_of_missing?_eq_none
    (hdepth : ∀ binding ∈ bindings, binding.direction = .input →
      (Path.segments binding.argument.path).length ≤ maxDepth)
    (callback : Callback) (name : FunctionName) {document : Document}
    (h : missing? document (along .input bindings) = none) :
    answer ⟨.standard, maxDepth⟩ callback name bindings document =
      (match callback name.path ((inputRules bindings).outcome document).write with
        | .error message => .error (.callback name.path message)
        | .ok output => settle ⟨.standard, maxDepth⟩ bindings document output,
       [(name.path, ((inputRules bindings).outcome document).write)]) := by
  have hwithin : ∀ rule ∈ inputRules bindings,
      (Path.segments rule.target.path).length ≤ maxDepth := by
    intro rule hrule
    obtain ⟨binding, hbinding, rfl⟩ := List.mem_map.1 hrule
    obtain ⟨hmem, hdirection⟩ := List.mem_filter.1 hbinding
    exact hdepth binding hmem (by simpa using hdirection)
  have hget := RuleSet.get_compile_of_le (isPlain_inputRules bindings) hwithin document
  have hpayload : (if inputRules bindings = [] then none
      else some ((inputRules bindings).outcome document)).getD (.object []) =
      (inputRules bindings).outcome document := by
    split
    · rename_i hempty
      rw [hempty]
      rfl
    · rfl
  simp only [answer, h, hget, hpayload]

/-- The document is patched with the outcome of the output rules, if there are
any. -/
theorem settle_of_ofBytes?_eq_some
    (hdepth : ∀ binding ∈ bindings, binding.direction = .output →
      (Path.segments binding.place.path).length ≤ maxDepth)
    (document : Document) {output : ByteArray} {result : Document}
    (h : Document.ofBytes? output = some result) :
    settle ⟨.standard, maxDepth⟩ bindings document output =
      .ok (if outputRules bindings = [] then document
        else document.patch ((outputRules bindings).outcome result)) := by
  have hwithin : ∀ rule ∈ outputRules bindings,
      (Path.segments rule.target.path).length ≤ maxDepth := by
    intro rule hrule
    obtain ⟨binding, hbinding, rfl⟩ := List.mem_map.1 hrule
    obtain ⟨hmem, hdirection⟩ := List.mem_filter.1 hbinding
    exact hdepth binding hmem (by simpa using hdirection)
  have hget := RuleSet.get_compile_of_le (isPlain_outputRules bindings) hwithin result
  by_cases hempty : outputRules bindings = []
  · simp only [settle, h, hget, if_pos hempty]
  · simp only [settle, h, hget, if_neg hempty]

end Binding

/-! ## The contract -/

/-- Calling the one function that the rules are about.  If a place that feeds an
argument is not in the document, the first such place is named, and nothing is
called.  Otherwise the function is called once, with the payload that the input
rules describe, and the document is patched with what the output rules describe.  The
text of this document is what comes back. -/
theorem Session.run_callFirst {rules : RuleSet} {name : FunctionName} {bindings : List Binding}
    (hrules : rules.filter (fun rule => rule.source.path.hasNamespace Path.functions) =
      bindings.map (Binding.rule name))
    (hne : bindings ≠ []) (hapart : Apart Rule.same (bindings.map (Binding.rule name)))
    {maxDepth : Nat}
    (hdepth : ∀ binding ∈ bindings,
      (Path.segments binding.argument.path).length ≤ maxDepth ∧
        (Path.segments binding.place.path).length ≤ maxDepth)
    (callback : Callback) {input : ByteArray} {document : Document}
    (hinput : Document.ofBytes? input = some document) :
    let ended := (callFirst ⟨.standard, maxDepth⟩ callback rules input).run
    (∀ binding, Binding.missing? document (Binding.along .input bindings) = some binding →
      ended.1 = .error (.missingArgument name.path binding.place.path) ∧ ended.2.calls = []) ∧
    (Binding.missing? document (Binding.along .input bindings) = none →
      ∃ payload, (Binding.inputRules bindings).Describes document payload ∧
        ended.2.calls = [(name.path, payload.write)] ∧
        (∀ message, callback name.path payload.write = .error message →
          ended.1 = .error (.callback name.path message)) ∧
        ∀ output, callback name.path payload.write = .ok output →
          (Document.ofBytes? output = none → ended.1 = .error .json) ∧
          ∀ result, Document.ofBytes? output = some result →
            ∃ patch, (Binding.outputRules bindings).Describes result patch ∧
              let changed := if Binding.outputRules bindings = [] then document
                else document.patch patch
              ended.1 = .ok (.merged changed) ∧
              ended.1.map (Outcome.bytes input) =
                .ok (String.ofList changed.write).toUTF8) := by
  intro ended
  have habout : rules.aboutFunctions = bindings.map (Binding.rule name) := by
    rw [RuleSet.aboutFunctions_eq hrules]
    exact collect_of_apart hapart
  obtain ⟨hresult, hcalls⟩ :=
    (gives_callFirst ⟨.standard, maxDepth⟩ callback hne hapart habout hinput []).run_eq
  rw [List.nil_append] at hcalls
  rw [hresult, hcalls]
  constructor
  · intro binding hmissing
    have hanswer : Binding.answer ⟨.standard, maxDepth⟩ callback name bindings document =
        (.error (.missingArgument name.path binding.place.path), []) := by
      simp only [Binding.answer, hmissing]
    rw [hanswer]
    exact ⟨rfl, rfl⟩
  · intro hmissing
    rw [Binding.answer_of_missing?_eq_none (fun binding hb _ => (hdepth binding hb).1) callback name
      hmissing]
    refine ⟨_, RuleSet.describes_outcome (Binding.isPlain_inputRules bindings) document, rfl,
      ?_, ?_⟩
    · intro message hmessage
      simp only [hmessage]
      rfl
    · intro output houtput
      simp only [houtput]
      constructor
      · intro hnone
        simp only [Binding.settle, hnone]
        rfl
      · intro result hsome
        refine ⟨_, RuleSet.describes_outcome (Binding.isPlain_outputRules bindings) result, ?_⟩
        rw [Binding.settle_of_ofBytes?_eq_some (fun binding hb _ => (hdepth binding hb).2) document
          hsome]
        exact ⟨rfl, rfl⟩

namespace Binding

/-- A function in a package. -/
def scaleName : FunctionName :=
  ⟨"pkg.scale".toList, by decide, by decide, by decide⟩

/-- Two inputs, one of which is converted, and an output between them. -/
def scaleBindings : List Binding :=
  [⟨.input, ⟨"arg.n".toList, "int".toList⟩, ⟨"n".toList, []⟩, by decide, by decide, by decide⟩,
   ⟨.output, ⟨"arg.n".toList, []⟩, ⟨"out.m".toList, "string".toList⟩, by decide, by decide,
    by decide⟩,
   ⟨.input, ⟨"by".toList, []⟩, ⟨"out.k".toList, []⟩, by decide, by decide, by decide⟩]

/-- The rules of the bindings, with a rule about no function among them. -/
def scaleRules : RuleSet :=
  ⟨⟨"n".toList, []⟩, ⟨"copy".toList, []⟩⟩ :: scaleBindings.map (rule scaleName)

def scaleInput : ByteArray :=
  "\x7b\"n\":\"7\",\"out\":\x7b\"k\":\"2\"\x7d\x7d".toUTF8

def scaleDocument : Document :=
  .object [("n".toList, .string "7".toList),
    ("out".toList, .object [("k".toList, .string "2".toList)])]

theorem filter_scaleRules :
    scaleRules.filter (fun rule => rule.source.path.hasNamespace Path.functions) =
      scaleBindings.map (rule scaleName) := by
  decide +kernel

theorem ofBytes?_scaleInput : Document.ofBytes? scaleInput = some scaleDocument := by
  cbv

/-- What the function gives, where the result is not a text. -/
def scaleResult : Document :=
  .object [("arg".toList, .object [("n".toList, .bool true)])]

/-- The function gives one result, whatever its arguments. -/
def scaleCallback : Callback :=
  fun _ _ => .ok "\x7b\"arg\":\x7b\"n\":true\x7d\x7d".toUTF8

/-- The document with the result, which has become a text. -/
def scaledDocument : Document :=
  .object [("n".toList, .string "7".toList),
    ("out".toList, .object [("k".toList, .string "2".toList), ("m".toList, .string "true".toList)])]

theorem patch_scaleDocument :
    scaleDocument.patch ((outputRules scaleBindings).outcome scaleResult) = scaledDocument := by
  have hplacements : (outputRules scaleBindings).placements .standard =
      [(["out".toList, "m".toList], "arg.n.@tostring".toList)] := by decide +kernel
  have hsteps : Path.steps? "arg.n.@tostring".toList =
      some [.key "arg".toList, .key "n".toList, .modifier .toText] := by decide +kernel
  have hfields : (outputRules scaleBindings).fields .standard =
      [("out".toList, .branch [("m".toList, .leaf "arg.n.@tostring".toList)])] := by
    rw [RuleSet.fields, hplacements]
    rfl
  have hvalue : evalPath? [.key "arg".toList, .key "n".toList, .modifier .toText] scaleResult =
      some (.string "true".toList) := rfl
  have houtcome : (outputRules scaleBindings).outcome scaleResult =
      .object [("out".toList, .object [("m".toList, .string "true".toList)])] := by
    simp only [RuleSet.outcome, hfields, TargetTree.values, Slot.value?, hsteps, Option.bind_some,
      hvalue]
    rfl
  rw [houtcome]
  cbv

end Binding

theorem Session.run_callFirst_scale :
    let ended := (callFirst ⟨.standard, 2⟩ Binding.scaleCallback Binding.scaleRules
      Binding.scaleInput).run
    (∃ payload,
      (Binding.inputRules Binding.scaleBindings).Describes Binding.scaleDocument payload ∧
        ended.2.calls = [(Binding.scaleName.path, payload.write)]) ∧
    ended.1 = .ok (.merged Binding.scaledDocument) ∧
    ended.1.map (Outcome.bytes Binding.scaleInput) =
      .ok "\x7b\"n\":\"7\",\"out\":\x7b\"k\":\"2\",\"m\":\"true\"\x7d\x7d".toUTF8 := by
  have hne : Binding.scaleBindings ≠ [] := by simp [Binding.scaleBindings]
  have hapart : Apart Rule.same (Binding.scaleBindings.map (Binding.rule Binding.scaleName)) := by
    decide +kernel
  have hdepth : ∀ binding ∈ Binding.scaleBindings,
      (Path.segments binding.argument.path).length ≤ 2 ∧
        (Path.segments binding.place.path).length ≤ 2 := by decide +kernel
  have hmissing : Binding.missing? Binding.scaleDocument
      (Binding.along .input Binding.scaleBindings) = none := by cbv
  have hresult : Document.ofBytes? "\x7b\"arg\":\x7b\"n\":true\x7d\x7d".toUTF8 =
      some Binding.scaleResult := by cbv
  have houtputs : Binding.outputRules Binding.scaleBindings ≠ [] := by decide +kernel
  have htext : (String.ofList Binding.scaledDocument.write).toUTF8 =
      "\x7b\"n\":\"7\",\"out\":\x7b\"k\":\"2\",\"m\":\"true\"\x7d\x7d".toUTF8 := by
    decide +kernel
  obtain ⟨payload, hpayload, hcalls, -, houtput⟩ :=
    (run_callFirst Binding.filter_scaleRules hne hapart hdepth Binding.scaleCallback
      Binding.ofBytes?_scaleInput).2 hmissing
  obtain ⟨patch, hpatch, hended, hbytes⟩ := (houtput _ rfl).2 _ hresult
  obtain rfl := hpatch.unique (RuleSet.describes_outcome (Binding.isPlain_outputRules _) _)
  rw [if_neg houtputs, Binding.patch_scaleDocument] at hended hbytes
  exact ⟨⟨payload, hpayload, hcalls⟩, hended, hbytes.trans (congrArg _ htext)⟩

end Reshape
