import Reshape.Proofs.Invocation
import Reshape.Proofs.Patch

/-!
# What a call leaves alone

A call patches the document with what its output rules describe.  Such a patch holds
an object on the way to every place of an output, and only the keys that lead to one.
So a place that is clear of the places of the outputs, neither on the way to one nor
below one, leaves the patch at an object that says nothing about it.
`RuleSet.Describes.at?_patch` follows the place down, and `Session.at?_callFirst` is
the result for a whole call.  `Session.bytes_of_callFirst` says that the text of the
document is what the call returns.
-/

namespace Reshape

/-! ## Clear places -/

/-- A place is clear of some key lists if it is neither on the way to one of them nor
below one. -/
def IsClear (lists : List (List Text)) (place : List Text) : Prop :=
  ∀ keys ∈ lists, ¬ place <+: keys ∧ ¬ keys <+: place

section

variable {lists : List (List Text)} {place rest : List Text}

/-- A clear place does not end where key lists go on. -/
theorem IsClear.ne_nil (h : IsClear lists (place ++ rest)) (hne : lists ≠ [])
    (hinner : IsInner lists place) : rest ≠ [] := by
  rintro rfl
  rw [List.append_nil] at h
  rcases hinner with rfl | ⟨keys, hkeys, hway, -⟩
  · obtain ⟨keys, hkeys⟩ := List.exists_mem_of_ne_nil lists hne
    exact (h keys hkeys).1 List.nil_prefix
  · exact (h keys hkeys).1 hway

/-- A key that leads on to some key list does not end one, on the way to a clear
place. -/
theorem IsClear.isInner {key : Text} (h : IsClear lists (place ++ key :: rest))
    (hkey : key ∈ nextKeys lists place) : IsInner lists (place ++ [key]) := by
  obtain ⟨keys, hkeys, hway⟩ := mem_nextKeys.1 hkey
  refine .inr ⟨keys, hkeys, hway, ?_⟩
  rintro rfl
  exact (h _ hkeys).2 ⟨rest, by simp⟩

end

/-! ## Patches that rules describe -/

namespace RuleSet.Describes

variable {rules : RuleSet} {source patch : Document}

/-- Below an inner place, the patch changes nothing at clear places. -/
theorem at?_patch_of_isInner (h : rules.Describes source patch)
    (hne : rules.destinations ≠ []) {place rest : List Text}
    (hinner : IsInner rules.destinations place)
    (hclear : IsClear rules.destinations (place ++ rest)) {change document : Document}
    (hchange : patch.at? place = some change) (hdocument : document.Distinct) :
    (document.patch change).at? rest = document.at? rest := by
  induction rest generalizing place change document with
  | nil => exact absurd rfl (hclear.ne_nil hne hinner)
  | cons key rest ih =>
    obtain ⟨members, hmembers, hkeys⟩ := h.inner place hinner
    obtain rfl : .object members = change := by simpa [hmembers] using hchange
    have hnodup : members.keys.Nodup := by
      rw [hkeys]
      exact (nodup_distinct _).filter _
    rw [Document.at?_patch_cons hnodup hdocument, Document.at?]
    cases hnext : members.get? key with
    | none => rfl
    | some next =>
      -- the patch names the key, so it goes on to a destination behind it
      have hkey : key ∈ nextKeys rules.destinations place := by
        have hmem : key ∈ members.keys := by
          by_contra hnot
          rw [Members.get?_eq_none_iff.2 hnot] at hnext
          simp at hnext
        rw [hkeys] at hmem
        exact (List.mem_filter.1 hmem).1
      have hinner' := hclear.isInner hkey
      have hclear' : IsClear rules.destinations (place ++ [key] ++ rest) := by simpa using hclear
      have hat : patch.at? (place ++ [key]) = some next := by
        rw [Document.at?_append, hchange]
        simp [Document.at?, Document.membersOrNone, hnext]
      obtain ⟨below, hbelow, -⟩ := h.inner _ hinner'
      obtain rfl : .object below = next := by simpa [hbelow] using hat
      rw [Document.patchMember?_of_ne_null _ (by simp), Option.bind_some]
      cases hold : Members.get? document.membersOrNone key with
      | none =>
        obtain ⟨first, rest, rfl⟩ := List.exists_cons_of_ne_nil (hclear'.ne_nil hne hinner')
        exact ih hinner' hclear' hat .null
      | some old => exact ih hinner' hclear' hat (hdocument.of_get? hold)

/-- A patch that rules describe changes nothing at places that are clear of their
destinations. -/
theorem at?_patch (h : rules.Describes source patch) (hne : rules.destinations ≠ [])
    {document : Document} (hdocument : document.Distinct) {place : List Text}
    (hclear : IsClear rules.destinations place) :
    (document.patch patch).at? place = document.at? place :=
  h.at?_patch_of_isInner hne (.inl rfl) hclear rfl hdocument

end RuleSet.Describes

/-! ## Calls that succeed -/

namespace Binding

variable {bindings : List Binding} {document changed : Document} {maxDepth : Nat}

/-- The document stands, or it is patched with what the output rules describe. -/
theorem eq_or_eq_patch_of_settle {output : ByteArray}
    (h : settle ⟨.standard, maxDepth⟩ bindings document output = .ok changed) :
    changed = document ∨ outputRules bindings ≠ [] ∧ ∃ result patch,
      (outputRules bindings).Describes result patch ∧ changed = document.patch patch := by
  have hplain := isPlain_outputRules bindings
  cases hresult : Document.ofBytes? output with
  | none => simp [settle, hresult] at h
  | some result =>
    by_cases hempty : outputRules bindings = []
    · have hget : Projection.get maxDepth result ((outputRules bindings).compile .standard) =
          .ok none := by
        rw [RuleSet.get_compile_of_le hplain (by simp [hempty]), if_pos hempty]
      simp only [settle, hresult, hget] at h
      exact .inl (by simpa using h.symm)
    · by_cases hdeep : maxDepth < TargetTree.height ((outputRules bindings).fields .standard)
      · simp [settle, hresult, RuleSet.get_compile_eq hplain hempty, hdeep] at h
      · simp only [settle, hresult, RuleSet.get_compile_eq hplain hempty, if_neg hdeep] at h
        exact .inr ⟨hempty, result, _, RuleSet.describes_outcome hplain result,
          by simpa using h.symm⟩

/-- A call that succeeds ends by settling some output. -/
theorem exists_settle_of_answer {settings : Settings} {callback : Callback} {name : FunctionName}
    (h : (answer settings callback name bindings document).1 = .ok changed) :
    ∃ output, settle settings bindings document output = .ok changed := by
  rw [answer] at h
  split at h
  · simp at h
  · split at h
    · simp at h
    · dsimp only at h
      split at h
      · simp at h
      · exact ⟨_, h⟩

theorem isClear_outputRules {place : List Text}
    (h : ∀ binding ∈ bindings, binding.direction = .output →
      ¬ place <+: Path.segments binding.place.path ∧
        ¬ Path.segments binding.place.path <+: place) :
    IsClear (outputRules bindings).destinations place := by
  intro keys hkeys
  obtain ⟨rule, hrule, rfl⟩ := List.mem_map.1 hkeys
  obtain ⟨binding, hbinding, rfl⟩ := List.mem_map.1 hrule
  obtain ⟨hmem, hdirection⟩ := List.mem_filter.1 hbinding
  exact h binding hmem (by simpa using hdirection)

end Binding

/-- The document after a call, for the document that was given. -/
def Outcome.document (given : Document) : Outcome → Document
  | .unchanged => given
  | .merged document => document

section

variable {rules : RuleSet} {name : FunctionName} {bindings : List Binding} {maxDepth : Nat}
  {callback : Callback} {input : ByteArray} {document : Document} {outcome : Outcome}

/-- A call that succeeds gives the answer of the function to some of the bindings, unless
there are none.  Which of the bindings count is settled when the rules are collected. -/
theorem Session.answer_of_callFirst
    (hrules : rules.filter (fun rule => rule.source.path.hasNamespace Path.functions) =
      bindings.map (Binding.rule name))
    (hinput : Document.ofBytes? input = some document)
    (hrun : (callFirst ⟨.standard, maxDepth⟩ callback rules input).run.1 = .ok outcome) :
    bindings = [] ∧ outcome = .unchanged ∨
    bindings ≠ [] ∧ ∃ chosen changed, (∀ binding ∈ chosen, binding ∈ bindings) ∧
      (Binding.answer ⟨.standard, maxDepth⟩ callback name chosen document).1 = .ok changed ∧
      outcome = .merged changed := by
  by_cases hne : bindings = []
  · have hnil := (RuleSet.aboutFunctions_eq_nil_iff hrules).2 hne
    have hresult := (gives_callFirst_of_nil ⟨.standard, maxDepth⟩ callback hnil input []).run_eq.1
    exact .inl ⟨hne, by simpa [hresult, eq_comm] using hrun⟩
  · obtain ⟨chosen, hchosen, hapart, habout⟩ := RuleSet.exists_aboutFunctions hrules
    have hsome : chosen ≠ [] := by
      rintro rfl
      exact hne ((RuleSet.aboutFunctions_eq_nil_iff hrules).1 habout)
    have hresult :=
      (gives_callFirst ⟨.standard, maxDepth⟩ callback hsome hapart habout hinput []).run_eq.1
    rw [hresult] at hrun
    cases hanswer : (Binding.answer ⟨.standard, maxDepth⟩ callback name chosen document).1 with
    | error error => simp [hanswer, Except.map] at hrun
    | ok changed =>
      exact .inr ⟨hne, chosen, changed, hchosen, hanswer,
        by simpa [hanswer, Except.map, eq_comm] using hrun⟩

/-- After a call that succeeds the document stands, or it is patched with what the
rules of some outputs describe. -/
theorem Session.callFirst_cases
    (hrules : rules.filter (fun rule => rule.source.path.hasNamespace Path.functions) =
      bindings.map (Binding.rule name))
    (hinput : Document.ofBytes? input = some document)
    (hrun : (callFirst ⟨.standard, maxDepth⟩ callback rules input).run.1 = .ok outcome) :
    outcome.document document = document ∨
    ∃ chosen : List Binding, (∀ binding ∈ chosen, binding ∈ bindings) ∧
      Binding.outputRules chosen ≠ [] ∧ ∃ result patch,
        (Binding.outputRules chosen).Describes result patch ∧
        outcome.document document = document.patch patch := by
  rcases answer_of_callFirst hrules hinput hrun with
    ⟨-, rfl⟩ | ⟨-, chosen, changed, hchosen, hanswer, rfl⟩
  · exact .inl rfl
  · obtain ⟨output, hsettle⟩ := Binding.exists_settle_of_answer hanswer
    rcases Binding.eq_or_eq_patch_of_settle hsettle with hsame | ⟨hsome, hpatched⟩
    · exact .inl hsame
    · exact .inr ⟨chosen, hchosen, hsome, hpatched⟩

/-- What comes back is the text of the document after the call, or the input itself if the
rules are about no function. -/
theorem Session.bytes_of_callFirst
    (hrules : rules.filter (fun rule => rule.source.path.hasNamespace Path.functions) =
      bindings.map (Binding.rule name))
    (hinput : Document.ofBytes? input = some document)
    (hrun : (callFirst ⟨.standard, maxDepth⟩ callback rules input).run.1 = .ok outcome) :
    outcome.bytes input = if bindings = [] then input
      else (String.ofList (outcome.document document).write).toUTF8 := by
  rcases answer_of_callFirst hrules hinput hrun with
    ⟨hnil, rfl⟩ | ⟨hne, chosen, changed, -, -, rfl⟩
  · rw [if_pos hnil]
    rfl
  · rw [if_neg hne]
    rfl

/-- A call changes nothing at a place that is neither on the way to the place of an
output nor below one, in the document whose text comes back. -/
theorem Session.at?_callFirst
    (hrules : rules.filter (fun rule => rule.source.path.hasNamespace Path.functions) =
      bindings.map (Binding.rule name))
    (hinput : Document.ofBytes? input = some document)
    (hrun : (callFirst ⟨.standard, maxDepth⟩ callback rules input).run.1 = .ok outcome)
    {place : List Text}
    (hplace : ∀ binding ∈ bindings, binding.direction = .output →
      ¬ place <+: Path.segments binding.place.path ∧
        ¬ Path.segments binding.place.path <+: place) :
    (outcome.document document).at? place = document.at? place ∧
      outcome.bytes input = if bindings = [] then input
        else (String.ofList (outcome.document document).write).toUTF8 := by
  refine ⟨?_, bytes_of_callFirst hrules hinput hrun⟩
  rcases callFirst_cases hrules hinput hrun with
    hsame | ⟨chosen, hchosen, hsome, result, patch, hpatch, hpatched⟩
  · rw [hsame]
  · have hne : (Binding.outputRules chosen).destinations ≠ [] := by
      simpa [RuleSet.destinations] using hsome
    have hclear : IsClear (Binding.outputRules chosen).destinations place :=
      Binding.isClear_outputRules fun binding hb => hplace binding (hchosen binding hb)
    rw [hpatched]
    exact hpatch.at?_patch hne (Document.distinct_of_ofBytes? hinput) hclear

end

theorem Session.at?_callFirst_scale :
    ∃ document outcome, Document.ofBytes? Binding.scaleInput = some document ∧
      (callFirst ⟨.standard, 2⟩ Binding.scaleCallback Binding.scaleRules
        Binding.scaleInput).run.1 = .ok outcome ∧
      (outcome.document document).at? ["out".toList, "k".toList] =
        document.at? ["out".toList, "k".toList] ∧
      outcome.bytes Binding.scaleInput =
        (String.ofList (outcome.document document).write).toUTF8 := by
  have hended : (callFirst ⟨.standard, 2⟩ Binding.scaleCallback Binding.scaleRules
      Binding.scaleInput).run.1.isOk = true := by decide +kernel
  have hplace : ∀ binding ∈ Binding.scaleBindings, binding.direction = .output →
      ¬ ["out".toList, "k".toList] <+: Path.segments binding.place.path ∧
        ¬ Path.segments binding.place.path <+: ["out".toList, "k".toList] := by decide +kernel
  have hinput := Binding.ofBytes?_scaleInput
  cases hrun : (callFirst ⟨.standard, 2⟩ Binding.scaleCallback Binding.scaleRules
      Binding.scaleInput).run.1 with
  | error error => simp [hrun, Except.isOk, Except.toBool] at hended
  | ok outcome =>
    obtain ⟨hsame, hbytes⟩ := at?_callFirst Binding.filter_scaleRules hinput hrun hplace
    rw [if_neg (by simp [Binding.scaleBindings])] at hbytes
    exact ⟨_, outcome, hinput, rfl, hsame, hbytes⟩

end Reshape
