import Reshape.Function.Signature
import Reshape.Proofs.Upsert

/-!
# The signatures that parameters describe

Parameters are grouped by the name of their function, and each group is read as a
signature.  On a list without two parameters of one identity nothing is replaced on the
way, so that the result can be read off the list.

* `Parameters.groups_eq`: the groups are the names in the order in which they are first
  mentioned, each with the parameters of this name.
* `Parameters.map_qualified_signatures` and `Parameters.along_of_mem_signatures`: there is
  one signature for each name, and it holds the parameters of this name.
* `RuleSet.kept?` and `RuleSet.mem_parameters_iff`: of the parameters that rules describe,
  the last one of each identity stands.
-/

namespace Reshape

/-- Where the values are distinct, only one element has the value of `x`. -/
theorem filter_eq_singleton {α β : Type} [DecidableEq β] {f : α → β} {xs : List α}
    (h : (xs.map f).Nodup) {x : α} (hx : x ∈ xs) : (xs.filter fun y => f y = f x) = [x] := by
  induction xs with
  | nil => simp at hx
  | cons first xs ih =>
    rw [List.map_cons, List.nodup_cons] at h
    rcases List.mem_cons.1 hx with rfl | hmem
    · have hrest : (xs.filter fun y => f y = f x) = [] := by
        rw [List.filter_eq_nil_iff]
        intro y hy
        have hne : f y ≠ f x := fun he => h.1 (he ▸ List.mem_map_of_mem hy)
        simpa using hne
      rw [List.filter_cons_of_pos (by simp), hrest]
    · have hne : f first ≠ f x := fun he => h.1 (he ▸ List.mem_map_of_mem hmem)
      rw [List.filter_cons_of_neg (by simpa using hne), ih h.2 hmem]

namespace Parameter

/-- The identity of a parameter: its path and the type it shows, with the case of letters
left out. -/
def identity (parameter : Parameter) : Text × Text :=
  (parameter.path.foldCase, parameter.shownType.foldCase)

theorem same_iff (left right : Parameter) :
    same left right = true ↔ left.identity = right.identity := by
  simp [same, Text.sameLetters, identity]

end Parameter

/-- The parameters of one direction. -/
def Signature.along : Direction → Signature → Parameters
  | .input, signature => signature.inputs
  | .output, signature => signature.outputs

namespace Parameters

/-! ## Groups -/

/-- A parameter goes to the group of its function, which is new if the function is not
named yet. -/
theorem addToGroup_map (parameter : Parameter) {names : List Text} (h : names.Nodup)
    (group : Text → Parameters) :
    addToGroup parameter (names.map fun name => (name, group name)) =
      if parameter.qualified ∈ names then
        names.map fun name =>
          (name, if name = parameter.qualified then (group name).add parameter else group name)
      else names.map (fun name => (name, group name)) ++ [(parameter.qualified, [parameter])] := by
  induction names with
  | nil => rfl
  | cons first names ih =>
    rw [List.nodup_cons] at h
    rw [List.map_cons, addToGroup]
    by_cases hfirst : first = parameter.qualified
    · have hrest : ∀ name ∈ names, name ≠ parameter.qualified := fun name hname he =>
        h.1 (hfirst ▸ he ▸ hname)
      rw [if_pos hfirst, if_pos (by simp [hfirst]), List.map_cons, if_pos hfirst]
      congr 1
      apply List.map_congr_left
      intro name hname
      rw [if_neg (hrest name hname)]
    · rw [if_neg hfirst, ih h.2, List.map_cons, if_neg hfirst]
      by_cases hmem : parameter.qualified ∈ names
      · rw [if_pos hmem, if_pos (List.mem_cons_of_mem _ hmem)]
      · rw [if_neg hmem, if_neg (List.not_mem_cons_of_ne_of_not_mem (Ne.symm hfirst) hmem),
          List.cons_append]

theorem groups_eq {parameters : Parameters} (h : Apart Parameter.same parameters) :
    parameters.groups =
      (distinct (parameters.map (·.qualified))).map fun name =>
        (name, parameters.filter fun parameter => parameter.qualified = name) := by
  induction parameters using List.reverseRecOn with
  | nil => rfl
  | append_singleton parameters parameter ih =>
    rw [Apart, List.pairwise_append] at h
    have hstep : groups (parameters ++ [parameter]) = addToGroup parameter (groups parameters) := by
      simp [groups, List.foldl_append]
    rw [hstep, ih h.1, addToGroup_map parameter (nodup_distinct _), List.map_append,
      List.map_singleton, distinct_append_singleton]
    split
    · apply List.map_congr_left
      intro name _
      by_cases hname : parameter.qualified = name
      · have hadd : add (parameters.filter fun other => other.qualified = name) parameter =
            (parameters.filter fun other => other.qualified = name) ++ [parameter] :=
          upsert_of_new fun other hother => h.2.2 other (List.mem_of_mem_filter hother) _ (by simp)
        simp [hname, hadd]
      · simp [hname, Ne.symm hname]
    · rename_i hnew
      rw [mem_distinct] at hnew
      have hnone : (parameters.filter fun other => other.qualified = parameter.qualified) = [] := by
        rw [List.filter_eq_nil_iff]
        intro other hother
        have hne : other.qualified ≠ parameter.qualified := fun he =>
          hnew (he ▸ List.mem_map_of_mem hother)
        simpa using hne
      rw [List.map_append, List.map_singleton, List.filter_append, hnone]
      congr 1
      · apply List.map_congr_left
        intro name hname
        have hne : parameter.qualified ≠ name := fun he => hnew (he ▸ mem_distinct.1 hname)
        simp [hne]
      · simp

/-! ## Signatures -/

section

variable {parameters : Parameters} (h : Apart Parameter.same parameters)

include h

/-- The parameters of one name have a signature, which holds all of them. -/
theorem exists_ofGroup? {name : Text} (hname : name ∈ parameters.map (·.qualified)) :
    ∃ signature,
      Signature.ofGroup? (parameters.filter fun parameter => parameter.qualified = name) =
        some signature ∧
      signature.qualified = name ∧
      ∀ direction, signature.along direction =
        parameters.filter fun parameter =>
          parameter.qualified = name && parameter.direction = direction := by
  have hcollected : ∀ direction,
      collected ((parameters.filter fun parameter => parameter.qualified = name).filter
        fun parameter => parameter.direction = direction) =
      parameters.filter fun parameter =>
        parameter.qualified = name && parameter.direction = direction := by
    intro direction
    rw [List.filter_filter]
    simp only [Bool.and_comm]
    exact collect_of_apart (h.sublist List.filter_sublist)
  cases hgroup : parameters.filter fun parameter => parameter.qualified = name with
  | nil =>
    obtain ⟨parameter, hparameter, hqualified⟩ := List.mem_map.1 hname
    rw [List.filter_eq_nil_iff] at hgroup
    exact absurd (by simpa using hqualified) (hgroup parameter hparameter)
  | cons first rest =>
    have hfirst : first.qualified = name := by
      have hmem : first ∈ parameters.filter fun parameter => parameter.qualified = name := by
        simp [hgroup]
      simpa using (List.mem_filter.1 hmem).2
    refine ⟨_, rfl, hfirst, fun direction => ?_⟩
    rw [← hcollected direction, hgroup]
    cases direction with
    | input => rfl
    | output => rfl

theorem signatures_eq :
    parameters.signatures = (distinct (parameters.map (·.qualified))).filterMap fun name =>
      Signature.ofGroup? (parameters.filter fun parameter => parameter.qualified = name) := by
  rw [signatures, groups_eq h, List.filterMap_map]
  rfl

/-- There is one signature for each function, in the order in which the functions are first
mentioned. -/
theorem map_qualified_signatures :
    parameters.signatures.map (·.qualified) = distinct (parameters.map (·.qualified)) := by
  have hnames : ∀ names : List Text, (∀ name ∈ names, name ∈ parameters.map (·.qualified)) →
      (names.filterMap fun name => Signature.ofGroup?
        (parameters.filter fun parameter => parameter.qualified = name)).map (·.qualified) =
        names := by
    intro names hall
    induction names with
    | nil => rfl
    | cons name names ih =>
      obtain ⟨signature, hsignature, hqualified, -⟩ := exists_ofGroup? h (hall name (by simp))
      rw [List.filterMap_cons, hsignature, List.map_cons, hqualified,
        ih fun other hother => hall other (by simp [hother])]
  rw [signatures_eq h]
  exact hnames _ fun name hname => mem_distinct.1 hname

/-- A signature holds the parameters of its function. -/
theorem along_of_mem_signatures {signature : Signature}
    (hsignature : signature ∈ parameters.signatures) (direction : Direction) :
    signature.along direction = parameters.filter fun parameter =>
      parameter.qualified = signature.qualified && parameter.direction = direction := by
  rw [signatures_eq h] at hsignature
  obtain ⟨name, hname, hgroup⟩ := List.mem_filterMap.1 hsignature
  obtain ⟨found, hfound, hqualified, halong⟩ := exists_ofGroup? h (mem_distinct.1 hname)
  obtain rfl : found = signature := by simpa [hgroup] using hfound.symm
  rw [halong, hqualified]

/-- A parameter is found in the one signature of its function. -/
theorem exists_signature {parameter : Parameter} (hparameter : parameter ∈ parameters) :
    ∃ signature,
      (parameters.signatures.filter fun other => other.qualified = parameter.qualified) =
        [signature] ∧
      parameter ∈ signature.along parameter.direction := by
  have hname : parameter.qualified ∈ parameters.signatures.map (·.qualified) := by
    rw [map_qualified_signatures h, mem_distinct]
    exact List.mem_map_of_mem hparameter
  obtain ⟨signature, hsignature, hqualified⟩ := List.mem_map.1 hname
  have hnodup : (parameters.signatures.map (·.qualified)).Nodup := by
    rw [map_qualified_signatures h]
    exact nodup_distinct _
  refine ⟨signature, ?_, ?_⟩
  · rw [← hqualified]
    exact filter_eq_singleton hnodup hsignature
  · rw [along_of_mem_signatures h hsignature, List.mem_filter]
    exact ⟨hparameter, by simp [hqualified]⟩

end

end Parameters

/-! ## Rules -/

namespace RuleSet

/-- The parameters that the sources describe, in the order of the rules. -/
def described (rules : RuleSet) : List Parameter :=
  rules.filterMap fun rule => (Parameter.ofEndpoint rule.source).toOption

theorem mem_described {rules : RuleSet} {parameter : Parameter} :
    parameter ∈ rules.described ↔
      ∃ rule ∈ rules, Parameter.ofEndpoint rule.source = .ok parameter := by
  rw [described, List.mem_filterMap]
  constructor
  · rintro ⟨rule, hrule, hok⟩
    refine ⟨rule, hrule, ?_⟩
    cases hsource : Parameter.ofEndpoint rule.source with
    | error error => simp [hsource, Except.toOption] at hok
    | ok found =>
      obtain rfl : found = parameter := by simpa [hsource, Except.toOption] using hok
      rfl
  · rintro ⟨rule, hrule, hok⟩
    exact ⟨rule, hrule, by simp [hok, Except.toOption]⟩

theorem apart_parameters (rules : RuleSet) : Apart Parameter.same rules.parameters :=
  apart_collect Parameter.same_iff _

/-- The parameter that stands for the given one in the end: the last one that the rules
describe and that is the same. -/
def kept? (rules : RuleSet) (parameter : Parameter) : Option Parameter :=
  (rules.described.filter fun other => parameter.same other).getLast?

variable {rules : RuleSet} {parameter kept : Parameter}

theorem mem_parameters_iff :
    parameter ∈ rules.parameters ↔ rules.kept? parameter = some parameter :=
  mem_collect_iff Parameter.same_iff

/-- Some parameter stands for each one that is described. -/
theorem exists_kept? (h : parameter ∈ rules.described) :
    ∃ kept, rules.kept? parameter = some kept := by
  have hself : parameter ∈ rules.described.filter fun other => parameter.same other :=
    List.mem_filter.2 ⟨h, (Parameter.same_iff _ _).2 rfl⟩
  exact ⟨_, List.getLast?_eq_some_getLast (List.ne_nil_of_mem hself)⟩

theorem of_kept?_eq_some (h : rules.kept? parameter = some kept) :
    kept ∈ rules.described ∧ parameter.same kept = true :=
  List.mem_filter.1 (List.mem_of_getLast? h)

/-- What stands for a parameter stands for itself. -/
theorem kept?_eq_self (h : rules.kept? parameter = some kept) : rules.kept? kept = some kept := by
  have hidentity := (Parameter.same_iff _ _).1 (of_kept?_eq_some h).2
  have hfilter : (rules.described.filter fun other => kept.same other) =
      rules.described.filter fun other => parameter.same other := by
    apply List.filter_congr
    intro other _
    rw [Bool.eq_iff_iff, Parameter.same_iff, Parameter.same_iff, hidentity]
  rw [kept?, hfilter]
  exact h

end RuleSet

end Reshape
