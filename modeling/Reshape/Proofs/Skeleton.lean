import Reshape.Proofs.Frame

/-!
# Results that are not returned

The patch of a call leaves out every result that the function does not return, but not the
objects around it.  If nothing is returned, the patch is a skeleton: objects all the way
down.  There are three groups of results.

* Patching with a skeleton.  `Document.at?_patch_skeleton` gives every place of the result:
  an object where the skeleton has one, and what was there elsewhere.
  `Document.patch_eq_self_iff` says when nothing changes.
* The skeleton of output rules.  `RuleSet.skeleton_outcome` and `RuleSet.isSome_at?_outcome`:
  the patch is a skeleton, with an object on the way to each destination.
  `RuleSet.onlyOpens_patch` puts this together with the first group.
* `Session.run_callFirst_unreturned` is the result for a whole call.  The places that it
  opens the way to are those of the outputs that count (`Binding.Counts`).
-/

namespace Reshape

/-! ## Patching with a skeleton -/

namespace Document

/-- Objects all the way down, with distinct keys. -/
inductive Skeleton : Document → Prop where
  | object {members : Members} (keys_nodup : members.keys.Nodup)
      (below : ∀ entry ∈ members, Skeleton entry.2) : Skeleton (.object members)

variable {document change : Document}

theorem Skeleton.exists_eq (h : change.Skeleton) : ∃ members, change = .object members := by
  cases h with
  | object keys_nodup below => exact ⟨_, rfl⟩

/-- A place that the skeleton has is an object afterwards, and every other place stays as it
is. -/
theorem at?_patch_skeleton (h : change.Skeleton) (hdocument : document.Distinct)
    (place : List Text) :
    ((change.at? place).isSome = true →
      ∃ members, (document.patch change).at? place = some (.object members)) ∧
    (change.at? place = none → (document.patch change).at? place = document.at? place) := by
  induction place generalizing document change with
  | nil =>
    obtain ⟨members, rfl⟩ := h.exists_eq
    exact ⟨fun _ => ⟨_, rfl⟩, fun hnone => by simp [at?] at hnone⟩
  | cons key place ih =>
    obtain ⟨keys_nodup, below⟩ := h
    rename_i members
    have hchange : (Document.object members).at? (key :: place) =
        (members.get? key).bind (at? place) := rfl
    rw [at?_patch_cons keys_nodup hdocument, hchange, at?]
    cases hnext : members.get? key with
    | none => simp [patchMember?]
    | some next =>
      have hskeleton : next.Skeleton := below _ (mem_of_lookup hnext)
      obtain ⟨others, rfl⟩ := hskeleton.exists_eq
      rw [patchMember?_of_ne_null _ (by simp), Option.bind_some, Option.bind_some]
      cases hold : Members.get? document.membersOrNone key with
      | some old => exact ih hskeleton (hdocument.of_get? hold)
      | none =>
        -- the member is new, and counts as `null` before
        have hnull : Document.null.Distinct := .null
        obtain ⟨hsome, hnone⟩ := ih hskeleton hnull
        refine ⟨hsome, fun hfree => ?_⟩
        rw [Option.getD_none, hnone hfree]
        cases place with
        | nil => simp [at?] at hfree
        | cons first place => rfl

/-- A skeleton changes nothing exactly if the document has an object wherever the skeleton
has one. -/
theorem patch_eq_self_iff (h : change.Skeleton) (hdocument : document.Distinct) :
    document.patch change = document ↔
      ∀ place, (change.at? place).isSome = true →
        ∃ members, document.at? place = some (.object members) := by
  constructor
  · intro hsame place hplace
    rw [← hsame]
    exact (at?_patch_skeleton h hdocument place).1 hplace
  · intro hall
    clear hdocument
    induction h generalizing document with
    | @object changes keys_nodup below ih =>
      obtain ⟨members, hmembers⟩ := hall [] rfl
      obtain rfl : document = .object members := by simpa [at?] using hmembers
      rw [patch, membersOrNone, patchMembers_eq_self]
      intro entry hentry
      have hchange : Members.get? changes entry.1 = some entry.2 :=
        (Members.get?_eq_some_iff keys_nodup).2 hentry
      obtain ⟨others, hothers⟩ := (below entry hentry).exists_eq
      obtain ⟨inner, hinner⟩ := hall [entry.1] (by simp [at?, membersOrNone, hchange])
      have hvalue : Members.get? members entry.1 = some (.object inner) := by
        simpa [at?, membersOrNone] using hinner
      rw [hvalue, patchMember?_of_ne_null _ (by simp [hothers]), Option.getD_some, ih entry hentry]
      intro place hplace
      have hbelow := hall (entry.1 :: place) (by simpa [at?, membersOrNone, hchange] using hplace)
      simpa [at?, membersOrNone, hvalue] using hbelow

end Document

/-! ## The skeleton of rules without values -/

namespace Slot

variable {slot : Slot} {document : Document}

/-- The sources of the leaves have no value. -/
abbrev IsUnfilled (document : Document) (slot : Slot) : Prop :=
  slot.Every TargetTree.IsPlain fun source =>
    (Path.steps? source).bind (evalPath? · document) = none

theorem skeleton_value? (h : slot.IsUnfilled document) {value : Document}
    (hvalue : slot.value? document = some value) : value.Skeleton := by
  induction slot using Slot.induction generalizing value with
  | leaf source =>
    rw [IsUnfilled, Slot.Every] at h
    simp [value?, h] at hvalue
  | branch entries ih =>
    rw [IsUnfilled, Slot.Every, TargetTree.every_iff] at h
    obtain ⟨hlevel, hentries⟩ := h
    obtain rfl : .object (TargetTree.values document entries) = value := by
      simpa [value?] using hvalue
    have hnodup : (TargetTree.values document entries).keys.Nodup :=
      (TargetTree.keys_values_sublist document entries).nodup hlevel.2.1
    refine .object hnodup fun entry hentry => ?_
    have hget := (Members.get?_eq_some_iff hnodup).2 hentry
    rw [TargetTree.get?_values hlevel.2.1, Option.bind_eq_some_iff] at hget
    obtain ⟨child, hchild, hbelow⟩ := hget
    have hmem := mem_of_lookup hchild
    exact ih _ hmem (hentries _ hmem) hbelow

/-- Every place of the value is a place of the tree. -/
theorem at?_value?_of_isUnfilled (h : slot.IsUnfilled document) (place : List Text) :
    (slot.value? document).bind (Document.at? place) =
      (slot.at? place).bind (·.value? document) := by
  induction place generalizing slot with
  | nil =>
    rw [Slot.at?_nil, Option.bind_some]
    cases slot.value? document <;> rfl
  | cons key place ih =>
    cases slot with
    | leaf source =>
      rw [IsUnfilled, Slot.Every] at h
      simp [value?, h, entries]
    | branch entries =>
      rw [IsUnfilled, Slot.Every, TargetTree.every_iff] at h
      rw [value?, Option.bind_some, Document.at?, Document.membersOrNone,
        TargetTree.get?_values h.1.2.1, Slot.at?_cons, Slot.entries]
      cases hchild : entries.lookup key with
      | none => rfl
      | some child => exact ih (h.2 _ (mem_of_lookup hchild))

end Slot

namespace RuleSet

section

variable {rules : RuleSet} {document : Document} (h : rules.IsPlain) (hne : rules ≠ [])
  (hnone : ∀ rule ∈ rules, rule.value? document = none)

include h hne hnone

theorem isUnfilled_fields : (Slot.branch (rules.fields .standard)).IsUnfilled document := by
  apply every_fields_of h hne
  intro rule hrule
  rw [Rule.steps?_coercedSource]
  exact hnone rule hrule

/-- If no rule has a value, the outcome is a skeleton. -/
theorem skeleton_outcome : (rules.outcome document).Skeleton :=
  Slot.skeleton_value? (isUnfilled_fields h hne hnone) rfl

/-- If no rule has a value, the outcome has what lies on the way to a destination. -/
theorem isSome_at?_outcome (place : List Text) :
    ((rules.outcome document).at? place).isSome = true ↔ IsInner rules.destinations place := by
  have hat : (rules.outcome document).at? place =
      ((Slot.branch (rules.fields .standard)).at? place).bind (·.value? document) :=
    Slot.at?_value?_of_isUnfilled (isUnfilled_fields h hne hnone) place
  have hvalue : rules.valueAt? document place = none := by
    rw [valueAt?, Option.bind_eq_none_iff]
    intro rule hrule
    exact hnone rule (List.mem_of_find?_eq_some hrule)
  rw [hat, isSome_value?_at?, isFilled, hvalue]
  simp

end

end RuleSet

/-! ## Opening the way -/

/-- A place leads to some key lists if one of them goes on behind it. -/
def LeadsTo (lists : List (List Text)) (place : List Text) : Prop :=
  ∃ keys ∈ lists, place <+: keys ∧ place ≠ keys

/-- The document is changed only so far that there is an object at every place that leads to
one of the key lists. -/
structure OnlyOpens (lists : List (List Text)) (document changed : Document) : Prop where
  onTheWay : ∀ place, LeadsTo lists place →
    ∃ members, changed.at? place = some (.object members)
  elsewhere : ∀ place, ¬ LeadsTo lists place → changed.at? place = document.at? place
  unchanged_iff : changed = document ↔ ∀ place, LeadsTo lists place →
    ∃ members, document.at? place = some (.object members)

theorem onlyOpens_nil (document : Document) : OnlyOpens [] document document := by
  constructor <;> simp [LeadsTo]

theorem RuleSet.isInner_iff_leadsTo {rules : RuleSet} (hne : rules ≠ []) {place : List Text} :
    IsInner rules.destinations place ↔ LeadsTo rules.destinations place := by
  constructor
  · rintro (rfl | hleads)
    · obtain ⟨rule, hrule⟩ := List.exists_mem_of_ne_nil rules hne
      exact ⟨_, List.mem_map_of_mem hrule, List.nil_prefix, (Path.segments_ne_nil _).symm⟩
    · exact hleads
  · exact .inr

/-- If no rule has a value, the outcome only opens the way to the destinations. -/
theorem RuleSet.onlyOpens_patch {rules : RuleSet} {document source : Document}
    (h : rules.IsPlain) (hne : rules ≠ []) (hnone : ∀ rule ∈ rules, rule.value? source = none)
    (hdocument : document.Distinct) :
    OnlyOpens rules.destinations document (document.patch (rules.outcome source)) := by
  have hskeleton := skeleton_outcome h hne hnone
  have hplace : ∀ place, ((rules.outcome source).at? place).isSome = true ↔
      LeadsTo rules.destinations place := fun place =>
    (isSome_at?_outcome h hne hnone place).trans (isInner_iff_leadsTo hne)
  constructor
  · intro place hleads
    exact (Document.at?_patch_skeleton hskeleton hdocument place).1 ((hplace place).2 hleads)
  · intro place hleads
    rw [← hplace, Option.not_isSome_iff_eq_none] at hleads
    exact (Document.at?_patch_skeleton hskeleton hdocument place).2 hleads
  · rw [Document.patch_eq_self_iff hskeleton hdocument]
    simp only [hplace]

/-! ## Calls that return nothing -/

/-- A path of keys is followed before what comes behind it. -/
theorem evalPath?_keys_append (keys : List Text) (rest : List Segment) (document : Document) :
    evalPath? (keys.map .key ++ rest) document =
      (evalPath? (keys.map .key) document).bind (evalPath? rest) := by
  induction keys generalizing document with
  | nil => rfl
  | cons key keys ih =>
    simp only [List.map_cons, List.cons_append, evalPath?]
    cases document.child? key with
    | none => rfl
    | some child => exact ih child

namespace Binding

theorem value?_outward (binding : Binding) {result : Document}
    (h : result.resolve? binding.argument.path = none) : binding.outward.value? result = none := by
  have hne : binding.argument.path ≠ [] := Path.ne_nil_of_isPlain binding.argument_isPlain
  rw [Document.resolve?] at h
  simp only [Rule.value?, Rule.steps?, outward, if_neg hne,
    Path.steps?_of_isPlain binding.argument_isPlain, Option.map_some, Option.bind_some]
  rw [evalPath?_keys_append, h]
  rfl

variable {bindings : List Binding} {document : Document} {maxDepth : Nat}

/-- Settling an output that holds no result only opens the way to the places of the
outputs. -/
theorem exists_settle_of_unreturned
    (hdepth : ∀ binding ∈ bindings, binding.direction = .output →
      (Path.segments binding.place.path).length ≤ maxDepth)
    (hdocument : document.Distinct) {output : ByteArray} {result : Document}
    (hresult : Document.ofBytes? output = some result)
    (hnone : ∀ binding ∈ bindings, binding.direction = .output →
      result.resolve? binding.argument.path = none) :
    ∃ changed, settle ⟨.standard, maxDepth⟩ bindings document output = .ok changed ∧
      OnlyOpens (outputRules bindings).destinations document changed := by
  rw [settle_of_ofBytes?_eq_some hdepth document hresult]
  refine ⟨_, rfl, ?_⟩
  by_cases hempty : outputRules bindings = []
  · rw [if_pos hempty, hempty]
    exact onlyOpens_nil document
  · rw [if_neg hempty]
    refine RuleSet.onlyOpens_patch (isPlain_outputRules bindings) hempty ?_ hdocument
    intro rule hrule
    obtain ⟨binding, hbinding, rfl⟩ := List.mem_map.1 hrule
    obtain ⟨hmem, hdirection⟩ := List.mem_filter.1 hbinding
    exact binding.value?_outward (hnone binding hmem (by simpa using hdirection))

/-- A function that has its arguments and returns no result only opens the way to the places
of its outputs. -/
theorem exists_answer_of_unreturned {callback : Callback} {name : FunctionName}
    (hdepth : ∀ binding ∈ bindings,
      (binding.direction = .input → (Path.segments binding.argument.path).length ≤ maxDepth) ∧
      (binding.direction = .output → (Path.segments binding.place.path).length ≤ maxDepth))
    (hdocument : document.Distinct)
    (harguments : ∀ binding ∈ bindings, binding.direction = .input →
      (document.resolve? binding.place.path).isSome = true)
    (hcallback : ∀ call ∈ (answer ⟨.standard, maxDepth⟩ callback name bindings document).2,
      ∃ output result, callback call.1 call.2 = .ok output ∧
        Document.ofBytes? output = some result ∧
        ∀ binding ∈ bindings, binding.direction = .output →
          result.resolve? binding.argument.path = none) :
    ∃ changed, (answer ⟨.standard, maxDepth⟩ callback name bindings document).1 = .ok changed ∧
      OnlyOpens (outputRules bindings).destinations document changed := by
  have hmissing : missing? document (along .input bindings) = none := by
    rw [missing?, List.find?_eq_none]
    intro binding hbinding
    obtain ⟨hmem, hdirection⟩ := List.mem_filter.1 hbinding
    have hsome := harguments binding hmem (by simpa using hdirection)
    simpa [Option.isSome_iff_ne_none] using hsome
  have hanswer := answer_of_missing?_eq_none (fun binding hb => (hdepth binding hb).1) callback name
    hmissing
  rw [hanswer] at hcallback ⊢
  obtain ⟨output, result, houtput, hread, hnone⟩ := hcallback _ (List.mem_singleton.2 rfl)
  simp only at houtput
  rw [houtput]
  exact exists_settle_of_unreturned (fun binding hb => (hdepth binding hb).2) hdocument hread hnone

end Binding

/-- A binding counts if no later one has the same rule, up to the case of letters. -/
def Binding.Counts (name : FunctionName) (bindings : List Binding) (binding : Binding) : Prop :=
  ∃ before after, bindings = before ++ binding :: after ∧
    ∀ other ∈ after, Rule.same (binding.rule name) (other.rule name) = false

/-- The destinations of the collected output rules are the places of the outputs that
count. -/
theorem RuleSet.mem_destinations_outputs {rules : RuleSet} {name : FunctionName}
    {bindings : List Binding}
    (hrules : rules.filter (fun rule => rule.source.path.hasNamespace Path.functions) =
      bindings.map (Binding.rule name)) {keys : List Text} :
    keys ∈ destinations (outputs rules.aboutFunctions) ↔
      ∃ binding, Binding.Counts name bindings binding ∧ binding.direction = .output ∧
        Path.segments binding.place.path = keys := by
  have hapart : Apart Rule.same (collected (bindings.map (Binding.rule name))) :=
    apart_collect Rule.same_iff _
  have houtputs : outputs (collected (bindings.map (Binding.rule name))) =
      (collected (bindings.map (Binding.rule name))).filter Rule.isOut :=
    collect_of_apart (hapart.sublist List.filter_sublist)
  have hout : ∀ binding, Rule.isOut (Binding.rule name binding) = true ↔
      binding.direction = .output := by
    simp [Rule.isOut, Path.isOut, Binding.direction?_rule]
  rw [aboutFunctions_eq hrules, houtputs, destinations, List.mem_map]
  constructor
  · rintro ⟨rule, hrule, rfl⟩
    obtain ⟨hmem, hdirection⟩ := List.mem_filter.1 hrule
    obtain ⟨before, after, hsplit, hafter⟩ := (mem_collect_iff_exists_split Rule.same_iff).1 hmem
    obtain ⟨first, rest, rfl, -, hrest⟩ := List.map_eq_append_iff.1 hsplit
    obtain ⟨binding, others, rfl, rfl, rfl⟩ := List.map_eq_cons_iff.1 hrest
    refine ⟨binding, ⟨first, others, rfl, fun other hother => ?_⟩, (hout binding).1 hdirection, rfl⟩
    exact hafter _ (List.mem_map_of_mem hother)
  · rintro ⟨binding, ⟨before, after, rfl, hafter⟩, hdirection, rfl⟩
    refine ⟨binding.rule name, List.mem_filter.2 ⟨?_, (hout binding).2 hdirection⟩, rfl⟩
    refine (mem_collect_iff_exists_split Rule.same_iff).2
      ⟨before.map (Binding.rule name), after.map (Binding.rule name), by simp, ?_⟩
    intro rule hrule
    obtain ⟨other, hother, rfl⟩ := List.mem_map.1 hrule
    exact hafter other hother

/-- A call of the one function that the rules are about, on a document that has its
arguments.  If the function returns none of its results, the call succeeds, and it only
opens the way to the places of the outputs: an object stands at each place that leads to
one of them, and every other place is as before.  The document stays the same exactly if it
has these objects already.  Of outputs whose rules are the same, up to the case of letters,
only the last one counts.  The text of the document is what comes back. -/
theorem Session.run_callFirst_unreturned {rules : RuleSet} {name : FunctionName}
    {bindings : List Binding}
    (hrules : rules.filter (fun rule => rule.source.path.hasNamespace Path.functions) =
      bindings.map (Binding.rule name))
    {maxDepth : Nat}
    (hdepth : ∀ binding ∈ bindings,
      (binding.direction = .input → (Path.segments binding.argument.path).length ≤ maxDepth) ∧
      (binding.direction = .output → (Path.segments binding.place.path).length ≤ maxDepth))
    (callback : Callback) {input : ByteArray} {document : Document}
    (hinput : Document.ofBytes? input = some document)
    (harguments : ∀ binding ∈ bindings, binding.direction = .input →
      (document.resolve? binding.place.path).isSome = true)
    (hcallback : ∀ call ∈ (callFirst ⟨.standard, maxDepth⟩ callback rules input).run.2.calls,
      ∃ output result, callback call.1 call.2 = .ok output ∧
        Document.ofBytes? output = some result ∧
        ∀ binding ∈ bindings, binding.direction = .output →
          result.resolve? binding.argument.path = none) :
    ∃ outcome, (callFirst ⟨.standard, maxDepth⟩ callback rules input).run.1 = .ok outcome ∧
      OnlyOpens (RuleSet.destinations (RuleSet.outputs rules.aboutFunctions)) document
        (outcome.document document) ∧
      (∀ keys, keys ∈ RuleSet.destinations (RuleSet.outputs rules.aboutFunctions) ↔
        ∃ binding, Binding.Counts name bindings binding ∧ binding.direction = .output ∧
          Path.segments binding.place.path = keys) ∧
      outcome.bytes input = if bindings = [] then input
        else (String.ofList (outcome.document document).write).toUTF8 := by
  have hends : ∃ outcome,
      (callFirst ⟨.standard, maxDepth⟩ callback rules input).run.1 = .ok outcome ∧
      OnlyOpens (RuleSet.destinations (RuleSet.outputs rules.aboutFunctions)) document
        (outcome.document document) := by
    by_cases hnil : rules.aboutFunctions = []
    · have hresult := (gives_callFirst_of_nil ⟨.standard, maxDepth⟩ callback hnil input []).run_eq.1
      refine ⟨_, hresult, ?_⟩
      rw [hnil]
      exact onlyOpens_nil document
    · obtain ⟨chosen, hchosen, hapart, habout⟩ := RuleSet.exists_aboutFunctions hrules
      have hne : chosen ≠ [] := by
        rintro rfl
        exact hnil habout
      obtain ⟨hresult, hcalls⟩ :=
        (gives_callFirst ⟨.standard, maxDepth⟩ callback hne hapart habout hinput []).run_eq
      rw [hcalls, List.nil_append] at hcallback
      obtain ⟨changed, hanswer, hopens⟩ := Binding.exists_answer_of_unreturned
        (fun binding hb => hdepth binding (hchosen binding hb))
        (Document.distinct_of_ofBytes? hinput)
        (fun binding hb => harguments binding (hchosen binding hb)) fun call hcall => by
          obtain ⟨output, result, houtput, hread, hnone⟩ := hcallback call hcall
          exact ⟨output, result, houtput, hread,
            fun binding hb => hnone binding (hchosen binding hb)⟩
      have hdestinations : RuleSet.destinations (RuleSet.outputs rules.aboutFunctions) =
          (Binding.outputRules chosen).destinations := by
        rw [habout, RuleSet.outputs_bindings hapart]
        simp [RuleSet.destinations, Binding.outputRules, Binding.rule, Binding.outward]
      refine ⟨.merged changed, ?_, ?_⟩
      · rw [hresult, hanswer]
        rfl
      · rw [hdestinations]
        exact hopens
  obtain ⟨outcome, hrun, hopens⟩ := hends
  exact ⟨outcome, hrun, hopens, fun keys => RuleSet.mem_destinations_outputs hrules,
    bytes_of_callFirst hrules hinput hrun⟩

namespace Binding

/-- The text of an empty object. -/
def emptyInput : ByteArray :=
  "\x7b\x7d".toUTF8

/-- A function that returns an empty object. -/
def silentCallback : Callback :=
  fun _ _ => .ok emptyInput

theorem ofBytes?_emptyInput : Document.ofBytes? emptyInput = some (.object []) := by
  cbv

/-- The empty object has none of the results. -/
theorem exists_silentCallback_eq (bindings : List Binding) (call : Text × Text) :
    ∃ output result, silentCallback call.1 call.2 = .ok output ∧
      Document.ofBytes? output = some result ∧
      ∀ binding ∈ bindings, binding.direction = .output →
        result.resolve? binding.argument.path = none := by
  refine ⟨_, _, rfl, ofBytes?_emptyInput, fun binding _ _ => ?_⟩
  obtain ⟨key, keys, hsegments⟩ :=
    List.exists_cons_of_ne_nil (Path.segments_ne_nil binding.argument.path)
  rw [Document.resolve?, hsegments]
  rfl

def openedName : FunctionName :=
  ⟨"f".toList, by decide, by decide, by decide⟩

/-- One output, whose place is inside an object. -/
def openedBinding : Binding :=
  ⟨.output, ⟨"r".toList, []⟩, ⟨"made.inside".toList, []⟩, by decide, by decide, by decide⟩

/-- The output and once more the same, where the place is in capital letters. -/
def respelledBindings : List Binding :=
  [openedBinding,
   ⟨.output, ⟨"r".toList, []⟩, ⟨"MADE.INSIDE".toList, []⟩, by decide, by decide, by decide⟩]

end Binding

theorem Session.run_callFirst_unreturned_scale :
    (∃ outcome, (callFirst ⟨.standard, 2⟩ Binding.silentCallback Binding.scaleRules
        Binding.scaleInput).run.1 = .ok outcome ∧
      outcome.document Binding.scaleDocument = Binding.scaleDocument ∧
      outcome.bytes Binding.scaleInput =
        (String.ofList Binding.scaleDocument.write).toUTF8) ∧
    ∃ outcome, (callFirst ⟨.standard, 2⟩ Binding.silentCallback
        (Binding.respelledBindings.map (Binding.rule Binding.openedName))
        Binding.emptyInput).run.1 = .ok outcome ∧
      (outcome.document (.object [])).at? ["made".toList] = none ∧
      ∃ members, (outcome.document (.object [])).at? ["MADE".toList] = some (.object members) := by
  constructor
  · have hdepth : ∀ binding ∈ Binding.scaleBindings,
        (binding.direction = .input → (Path.segments binding.argument.path).length ≤ 2) ∧
        (binding.direction = .output → (Path.segments binding.place.path).length ≤ 2) := by
      decide +kernel
    have harguments : ∀ binding ∈ Binding.scaleBindings, binding.direction = .input →
        (Binding.scaleDocument.resolve? binding.place.path).isSome = true := by decide +kernel
    have houtputs : RuleSet.destinations (RuleSet.outputs Binding.scaleRules.aboutFunctions) =
        [["out".toList, "m".toList]] := by decide +kernel
    obtain ⟨outcome, hrun, hopens, -, hbytes⟩ := run_callFirst_unreturned
      Binding.filter_scaleRules hdepth Binding.silentCallback Binding.ofBytes?_scaleInput harguments
      fun call _ => Binding.exists_silentCallback_eq _ call
    have hsame : outcome.document Binding.scaleDocument = Binding.scaleDocument := by
      refine hopens.unchanged_iff.2 fun place hplace => ?_
      rw [houtputs] at hplace
      obtain ⟨keys, hkeys, hbefore, hne⟩ := hplace
      obtain rfl := List.mem_singleton.1 hkeys
      have hplace : place ∈ [[], ["out".toList], ["out".toList, "m".toList]] :=
        (List.mem_inits place _).2 hbefore
      simp only [List.mem_cons, List.not_mem_nil, or_false] at hplace
      rcases hplace with rfl | rfl | rfl
      · exact ⟨_, rfl⟩
      · exact ⟨[("k".toList, .string "2".toList)], by cbv⟩
      · exact absurd rfl hne
    rw [if_neg (by simp [Binding.scaleBindings]), hsame] at hbytes
    exact ⟨outcome, hrun, hsame, hbytes⟩
  · -- of the two places only the one of the later rule is opened
    have hrules : (Binding.respelledBindings.map (Binding.rule Binding.openedName)).filter
        (fun rule => rule.source.path.hasNamespace Path.functions) =
        Binding.respelledBindings.map (Binding.rule Binding.openedName) := by decide +kernel
    have hdepth : ∀ binding ∈ Binding.respelledBindings,
        (binding.direction = .input → (Path.segments binding.argument.path).length ≤ 2) ∧
        (binding.direction = .output → (Path.segments binding.place.path).length ≤ 2) := by
      decide +kernel
    have harguments : ∀ binding ∈ Binding.respelledBindings, binding.direction = .input →
        (Document.resolve? binding.place.path (.object [])).isSome = true := by decide +kernel
    have houtputs : RuleSet.destinations (RuleSet.outputs (RuleSet.aboutFunctions
        (Binding.respelledBindings.map (Binding.rule Binding.openedName)))) =
        [["MADE".toList, "INSIDE".toList]] := by decide +kernel
    obtain ⟨outcome, hrun, hopens, -, -⟩ := run_callFirst_unreturned hrules hdepth
      Binding.silentCallback Binding.ofBytes?_emptyInput harguments
      fun call _ => Binding.exists_silentCallback_eq _ call
    rw [houtputs] at hopens
    refine ⟨outcome, hrun, hopens.elsewhere _ ?_, hopens.onTheWay _ ?_⟩
    · simp only [LeadsTo, List.mem_singleton, exists_eq_left]
      decide
    · exact ⟨_, List.mem_singleton.2 rfl, by decide, by decide⟩

/-- The object on the way to a place is added even if there is nothing to put into it. -/
theorem Session.run_callFirst_unreturned_opened :
    Document.ofBytes? Binding.emptyInput = some (.object []) ∧
      (Document.resolve? Binding.openedBinding.argument.path (.object [])).isNone = true ∧
      ∃ outcome, (callFirst ⟨.standard, 2⟩ Binding.silentCallback
          [Binding.openedBinding.rule Binding.openedName] Binding.emptyInput).run.1 = .ok outcome ∧
        outcome.document (.object []) ≠ .object [] := by
  have hnone : (Document.resolve? Binding.openedBinding.argument.path
      (.object [])).isNone = true := by decide +kernel
  have hopened : ((callFirst ⟨.standard, 2⟩ Binding.silentCallback
      [Binding.openedBinding.rule Binding.openedName] Binding.emptyInput).run.1.toOption.bind
      fun outcome => (outcome.document (.object [])).at? ["made".toList]).isSome = true := by
    decide +kernel
  refine ⟨Binding.ofBytes?_emptyInput, hnone, ?_⟩
  cases hrun : (callFirst ⟨.standard, 2⟩ Binding.silentCallback
      [Binding.openedBinding.rule Binding.openedName] Binding.emptyInput).run.1 with
  | error error =>
    rw [hrun] at hopened
    simp [Except.toOption] at hopened
  | ok outcome =>
    refine ⟨outcome, rfl, fun hsame => ?_⟩
    rw [hrun] at hopened
    simp [Except.toOption, hsame, Document.at?, Document.membersOrNone, Members.get?] at hopened

end Reshape
