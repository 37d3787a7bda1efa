import Reshape.Proofs.Invocation

/-!
# The functions that rules mention

A parameter is known by its path without the package and by the type it shows, up to the
case of letters.  So a rule may replace the parameter of an earlier rule, also one of a
function in another package, or one whose function differs in the case of letters.
`RuleSet.kept?` is the parameter that stands in the end.

* `Parameter.sameLetters_name`: parameters of one function that are the same have the same
  name, up to the case of letters.
* `Session.callsOnly_callFirst`: only the first function of the rules is called.
* `RuleSet.finds_iff`: a parameter is found in the signature of its function exactly if
  one of its function, direction and name stands.
* `RuleSet.exists_signature_of_source` puts this together: which parameters and functions
  are found, which function is the first, and when nothing is lost.
-/

namespace Reshape

/-! ## The parts of a parameter -/

namespace Parameter

theorem notMem_splitLast (text : Text) : '.' ∉ (splitLast text).2 := by
  intro hdot
  have hmem : '.' ∈ text.reverse.takeWhile (· != '.') := List.mem_reverse.1 hdot
  simpa using List.mem_takeWhile_imp hmem

theorem notMem_nameAndType (argument type : Text) : '.' ∉ (nameAndType argument type).1 := by
  have hstrip : ∀ name type : Text, '.' ∉ name →
      '.' ∉ (if name.getLast? = some '#' then (name.dropLast, "array".toList)
        else (name, type)).1 := by
    intro name type hname
    split
    · exact fun hdot => hname (List.dropLast_subset name hdot)
    · exact hname
  rw [nameAndType]
  by_cases hdot : '.' ∈ argument
  · obtain ⟨first, rest, rfl, hfirst⟩ := List.eq_append_cons_of_mem hdot
    rw [Text.cutAt?_append hfirst]
    exact hstrip first _ hfirst
  · rw [Text.cutAt?_of_notMem hdot]
    exact hstrip argument type hdot

/-- The path of a parameter is made of its parts, and neither the function nor the name has
a dot. -/
theorem path_of_ofPath {path : Path} {type : Text} {parameter : Parameter}
    (h : ofPath path type = .ok parameter) :
    parameter.path =
        Path.join ["func".toList, parameter.function, parameter.direction.token, parameter.name] ∧
      '.' ∉ parameter.function ∧ '.' ∉ parameter.name := by
  rw [ofPath] at h
  split at h
  · simp at h
  · split at h
    · simp at h
    · rename_i located _
      obtain rfl := Except.ok.inj h
      exact ⟨rfl, notMem_splitLast _, notMem_nameAndType _ _⟩

/-- The function is what stands behind the last dot of its name with the package. -/
theorem function_eq_of_qualified_eq {left right : Parameter} (hleft : '.' ∉ left.function)
    (hright : '.' ∉ right.function) (h : left.qualified = right.qualified) :
    left.function = right.function := by
  have hlast : ∀ package function : Text, '.' ∉ function →
      (splitLast (qualifiedName package function)).2 = function := by
    intro package function hfree
    rw [qualifiedName]
    split
    · rw [splitLast_of_notMem hfree]
    · rw [splitLast_append hfree]
  rw [← hlast left.package left.function hleft, ← hlast right.package right.function hright]
  exact congrArg (fun name => (splitLast name).2) h

end Parameter

namespace Path

theorem trimDots_of_notMem {text : Text} (h : '.' ∉ text) : trimDots text = text :=
  trimDots_eq_self (fun hdot => h (List.mem_of_head? hdot))
    fun hdot => h (List.mem_of_getLast? hdot)

/-- Behind other parts, a part without dots is joined by a dot, unless it is empty. -/
theorem join_concat {first : Text} (hfirst : first ≠ []) (parts : List Text) {last : Text}
    (hlast : '.' ∉ last) :
    join (first :: parts ++ [last]) =
      join (first :: parts) ++ if last = [] then [] else '.' :: last := by
  have hne : ((first :: parts).filter (!·.isEmpty)).map trimDots ≠ [] := by
    simp [hfirst]
  rw [join, List.filter_append, List.map_append]
  by_cases hempty : last = []
  · simp [hempty, join]
  · have hkeep : ([last].filter (!·.isEmpty)).map trimDots = [last] := by
      simp [hempty, trimDots_of_notMem hlast]
    rw [hkeep, ofSegments_concat hne, if_neg hempty]
    rfl

end Path

/-- Parameters of one function and one direction that are the same have one name, up to the
case of letters. -/
theorem Parameter.sameLetters_name {left right : Endpoint} {first second : Parameter}
    (hfirst : ofEndpoint left = .ok first) (hsecond : ofEndpoint right = .ok second)
    (hsame : same first second = true) (hqualified : second.qualified = first.qualified)
    (hdirection : second.direction = first.direction) :
    Text.sameLetters second.name first.name = true := by
  obtain ⟨hpath, hfunction, hname⟩ := path_of_ofPath hfirst
  obtain ⟨hpath', hfunction', hname'⟩ := path_of_ofPath hsecond
  have hpaths : Text.foldCase first.path = Text.foldCase second.path :=
    congrArg Prod.fst ((same_iff first second).1 hsame)
  have hlist : ∀ function token name : Text, ["func".toList, function, token, name] =
      "func".toList :: [function, token] ++ [name] := fun _ _ _ => rfl
  rw [hpath, hpath', hdirection, function_eq_of_qualified_eq hfunction' hfunction hqualified,
    hlist, hlist, Path.join_concat (by decide) _ hname, Path.join_concat (by decide) _ hname',
    Text.foldCase, Text.foldCase, List.map_append, List.map_append,
    List.append_cancel_left_eq] at hpaths
  rw [Text.sameLetters, beq_iff_eq]
  -- what is left of the two paths is the names, each with a dot unless it is empty
  by_cases hempty : first.name = []
  · by_cases hempty' : second.name = []
    · rw [hempty, hempty']
    · simp [hempty, hempty'] at hpaths
  · by_cases hempty' : second.name = []
    · simp [hempty, hempty'] at hpaths
    · rw [if_neg hempty, if_neg hempty', List.map_cons, List.map_cons, List.cons.injEq] at hpaths
      exact hpaths.2.symm

/-! ## The function that is called -/

namespace Session

variable {α β : Type} {name : Text}

/-- The session calls no other function, whatever happened before. -/
def CallsOnly (name : Text) (session : Session α) : Prop :=
  ∀ trace, ∀ call ∈ (session.runFrom trace).2.calls, call ∈ trace.calls ∨ call.1 = name

theorem callsOnly_of_gives {session : Session α} {result : Except Error α}
    {more : List (Text × Text)} (h : ∀ calls, Gives session calls result (calls ++ more))
    (hmore : ∀ call ∈ more, call.1 = name) : CallsOnly name session := by
  rintro ⟨asked, calls⟩ call hcall
  obtain ⟨asked', hrun⟩ := h calls asked
  rw [hrun] at hcall
  exact (List.mem_append.1 hcall).imp_right (hmore call)

/-- A session that calls nothing calls no other function. -/
theorem callsOnly_of_gives_same {session : Session α} {result : Except Error α}
    (h : ∀ calls, Gives session calls result calls) : CallsOnly name session := by
  have hnone : ∀ calls, Gives session calls result (calls ++ []) := by simpa using h
  exact callsOnly_of_gives hnone (by simp)

theorem CallsOnly.bind {session : Session α} {next : α → Session β}
    (h : CallsOnly name session) (hnext : ∀ value, CallsOnly name (next value)) :
    CallsOnly name (session >>= next) := by
  intro trace call
  have hfirst := h trace
  rw [runFrom_bind]
  split
  · rename_i value ended heq
    rw [heq] at hfirst
    intro hcall
    exact (hnext value ended call hcall).elim (hfirst call) .inr
  · rename_i failure ended heq
    rw [heq] at hfirst
    exact hfirst call

variable (settings : Settings) (callback : Callback)

theorem callsOnly_invoke (rules : RuleSet) (space : Text) (document : Document) :
    CallsOnly (functionName space) (invoke settings callback rules space document) := by
  rw [invoke]
  refine (callsOnly_of_gives_same (gives_missing settings document _)).bind fun missing => ?_
  cases missing with
  | some path =>
    exact callsOnly_of_gives_same fun calls => (gives_throw _ calls).bind_error _
  | none =>
    refine (callsOnly_of_gives_same (gives_ask settings document _)).bind fun payload => ?_
    refine (callsOnly_of_gives (gives_call callback _ _) (by simp)).bind fun output => ?_
    refine (callsOnly_of_gives_same (gives_readDocument output)).bind fun result => ?_
    refine (callsOnly_of_gives_same (gives_ask settings result _)).bind fun patch => ?_
    cases patch with
    | none => exact callsOnly_of_gives_same (gives_pure _)
    | some patch => exact callsOnly_of_gives_same (gives_pure _)

/-- Only the first function of the rules is called. -/
theorem callsOnly_callFirst (rules : RuleSet) (input : ByteArray) {call : Text × Text}
    (h : call ∈ (callFirst settings callback rules input).run.2.calls) :
    rules.aboutFunctions.signatures.head?.map (·.qualified) = some call.1 := by
  have hrun : (callFirst settings callback rules input).run =
      (callFirst settings callback rules input).runFrom ⟨[], []⟩ := rfl
  rw [hrun, callFirst] at h
  cases hsignatures : rules.aboutFunctions.signatures with
  | nil =>
    rw [hsignatures] at h
    exact absurd h (List.not_mem_nil)
  | cons signature rest =>
    rw [hsignatures] at h
    have hcalls : CallsOnly signature.qualified (do
        let document ← readDocument input
        return Outcome.merged
          (← invoke settings callback rules.aboutFunctions signature.space document)) := by
      refine (callsOnly_of_gives_same (gives_readDocument input)).bind fun document => ?_
      have hinvoke :=
        callsOnly_invoke settings callback rules.aboutFunctions signature.space document
      rw [Signature.space, functionName_append] at hinvoke
      exact hinvoke.bind fun changed => callsOnly_of_gives_same (gives_pure _)
    rcases hcalls ⟨[], []⟩ call h with hnil | hname
    · exact absurd hnil (List.not_mem_nil)
    · rw [List.head?_cons, Option.map_some, hname]

end Session

/-! ## The parameters that stand -/

/-- Where a parameter is listed: under its function, along its direction, by its name. -/
def Parameter.listing (parameter : Parameter) : Text × Direction × Text :=
  (parameter.qualified, parameter.direction, parameter.name)

namespace RuleSet

variable {rules : RuleSet}

/-- A parameter is found if its function has one signature, which lists a parameter of its
name along its direction. -/
def Finds (rules : RuleSet) (parameter : Parameter) : Prop :=
  ∃ signature,
    (rules.signatures.filter fun other => other.qualified = parameter.qualified) = [signature] ∧
    ∃ found ∈ signature.along parameter.direction, found.name = parameter.name

/-- A parameter is found exactly if one that stands is listed where it should be. -/
theorem finds_iff {parameter : Parameter} :
    rules.Finds parameter ↔ ∃ kept ∈ rules.parameters, kept.listing = parameter.listing := by
  have hapart := apart_parameters rules
  constructor
  · rintro ⟨signature, hsignature, found, hfound, hname⟩
    have hmem : signature ∈ rules.signatures.filter fun other =>
        other.qualified = parameter.qualified := by simp [hsignature]
    obtain ⟨hmem, hqualified⟩ := List.mem_filter.1 hmem
    rw [Parameters.along_of_mem_signatures hapart hmem, List.mem_filter] at hfound
    simp only [Bool.and_eq_true, decide_eq_true_eq] at hfound hqualified
    refine ⟨found, hfound.1, ?_⟩
    rw [Parameter.listing, Parameter.listing, hfound.2.1, hfound.2.2, hqualified, hname]
  · rintro ⟨kept, hkept, hlisting⟩
    simp only [Parameter.listing, Prod.mk.injEq] at hlisting
    obtain ⟨hqualified, hdirection, hname⟩ := hlisting
    obtain ⟨signature, hsignature, halong⟩ := Parameters.exists_signature hapart hkept
    rw [hqualified] at hsignature
    rw [hdirection] at halong
    exact ⟨signature, hsignature, kept, halong, hname⟩

theorem mem_qualified_signatures {name : Text} :
    name ∈ rules.signatures.map (·.qualified) ↔
      ∃ kept ∈ rules.parameters, kept.qualified = name := by
  rw [signatures, Parameters.map_qualified_signatures (apart_parameters rules), mem_distinct,
    List.mem_map]

/-- The first function is that of the parameter which stands for the first one. -/
theorem head?_signatures (rules : RuleSet) :
    rules.signatures.head?.map (·.qualified) =
      (rules.described.head?.bind rules.kept?).map (·.qualified) := by
  rw [← List.head?_map, signatures,
    Parameters.map_qualified_signatures (apart_parameters rules), head?_distinct, List.head?_map]
  exact congrArg (Option.map _) (head?_collect Parameter.same_iff rules.described)

/-- The parameters that are the same are listed at one place. -/
def SameListed (rules : RuleSet) : Prop :=
  ∀ left ∈ rules.described, ∀ right ∈ rules.described,
    left.same right = true → left.listing = right.listing

instance (rules : RuleSet) : Decidable rules.SameListed :=
  inferInstanceAs (Decidable (∀ left ∈ rules.described, _))

namespace SameListed

theorem exists_kept? (h : rules.SameListed) {parameter : Parameter}
    (hparameter : parameter ∈ rules.described) :
    ∃ kept, rules.kept? parameter = some kept ∧ kept.listing = parameter.listing := by
  obtain ⟨kept, hkept⟩ := RuleSet.exists_kept? hparameter
  obtain ⟨hdescribed, hsame⟩ := of_kept?_eq_some hkept
  exact ⟨kept, hkept, (h parameter hparameter kept hdescribed hsame).symm⟩

theorem finds (h : rules.SameListed) {parameter : Parameter}
    (hparameter : parameter ∈ rules.described) : rules.Finds parameter := by
  obtain ⟨kept, hkept, hlisting⟩ := h.exists_kept? hparameter
  exact finds_iff.2 ⟨kept, mem_parameters_iff.2 (kept?_eq_self hkept), hlisting⟩

theorem head?_signatures_eq (h : rules.SameListed) :
    rules.signatures.head?.map (·.qualified) = rules.described.head?.map (·.qualified) := by
  rw [head?_signatures]
  cases hfirst : rules.described.head? with
  | none => rfl
  | some first =>
    obtain ⟨kept, hkept, hlisting⟩ := h.exists_kept? (List.mem_of_head? hfirst)
    rw [Option.bind_some, hkept]
    exact congrArg (fun listing => some listing.1) hlisting

end SameListed

/-- Rules about no function describe no parameter. -/
theorem described_filter (rules : RuleSet) :
    described (rules.filter fun rule => rule.source.path.hasNamespace Path.functions) =
      rules.described := by
  rw [described, List.filterMap_filter, described]
  apply List.filterMap_congr
  intro rule _
  by_cases hspace : rule.source.path.hasNamespace Path.functions = true
  · rw [if_pos hspace]
  · rw [if_neg hspace, Parameter.ofEndpoint, Parameter.ofPath, if_pos (by simpa using hspace)]
    rfl

/-- The rules about functions have the signatures of all rules, if no two rules are the
same. -/
theorem signatures_aboutFunctions (h : Apart Rule.same rules) :
    rules.aboutFunctions.signatures = rules.signatures := by
  have hcollected : collected (rules.filter fun rule =>
        rule.source.path.hasNamespace Path.functions) =
      rules.filter fun rule => rule.source.path.hasNamespace Path.functions :=
    collect_of_apart (h.sublist List.filter_sublist)
  rw [aboutFunctions_eq_collected, hcollected]
  exact congrArg (fun list => Parameters.signatures (Parameters.collected list))
    (described_filter rules)

/-- Which parameters and functions are found.

* The parameter of a rule is found exactly if a parameter of its function, direction and
  name stands.  The one that stands for it is found in any case, in the one signature of its
  own function, and has its name up to the case of letters if it has its function and
  direction.
* A function is known exactly if one of its parameters stands.
* The first function is that of the parameter that stands for the first one.
* Nothing is lost if parameters that are the same have one function, direction and name.
* Only the first function of the rules is called. -/
theorem exists_signature_of_source (rules : RuleSet) :
    (∀ rule ∈ rules, ∀ parameter, Parameter.ofEndpoint rule.source = .ok parameter →
      (rules.Finds parameter ↔ ∃ other ∈ rules.described,
        rules.kept? other = some other ∧ other.listing = parameter.listing) ∧
      ∃ kept signature, rules.kept? parameter = some kept ∧
        (rules.signatures.filter fun other => other.qualified = kept.qualified) = [signature] ∧
        kept ∈ signature.along kept.direction ∧
        (kept.qualified = parameter.qualified → kept.direction = parameter.direction →
          Text.sameLetters kept.name parameter.name = true)) ∧
    (∀ name, name ∈ rules.signatures.map (·.qualified) ↔
      ∃ parameter ∈ rules.described, parameter.qualified = name ∧
        rules.kept? parameter = some parameter) ∧
    rules.signatures.head?.map (·.qualified) =
      (rules.described.head?.bind rules.kept?).map (·.qualified) ∧
    (rules.SameListed → (∀ parameter ∈ rules.described, rules.Finds parameter) ∧
      rules.signatures.head?.map (·.qualified) = rules.described.head?.map (·.qualified)) ∧
    (Apart Rule.same rules → rules.aboutFunctions.signatures = rules.signatures) ∧
    ∀ settings callback input,
      ∀ call ∈ (Session.callFirst settings callback rules input).run.2.calls,
        rules.aboutFunctions.signatures.head?.map (·.qualified) = some call.1 := by
  have hapart := apart_parameters rules
  have hstands : ∀ parameter, parameter ∈ rules.parameters ↔
      parameter ∈ rules.described ∧ rules.kept? parameter = some parameter := fun parameter =>
    ⟨fun h => ⟨(of_kept?_eq_some (mem_parameters_iff.1 h)).1, mem_parameters_iff.1 h⟩,
      fun h => mem_parameters_iff.2 h.2⟩
  refine ⟨?_, ?_, head?_signatures rules, fun hlisted => ⟨fun parameter => hlisted.finds,
    hlisted.head?_signatures_eq⟩, signatures_aboutFunctions, ?_⟩
  · intro rule hrule parameter hparameter
    constructor
    · simp only [finds_iff, hstands, and_assoc]
    · obtain ⟨kept, hkept⟩ := exists_kept? (mem_described.2 ⟨rule, hrule, hparameter⟩)
      obtain ⟨hdescribed, hsame⟩ := of_kept?_eq_some hkept
      obtain ⟨other, hother, hsource⟩ := mem_described.1 hdescribed
      obtain ⟨signature, hsignature, halong⟩ :=
        Parameters.exists_signature hapart (mem_parameters_iff.2 (kept?_eq_self hkept))
      exact ⟨kept, signature, hkept, hsignature, halong,
        Parameter.sameLetters_name hparameter hsource hsame⟩
  · intro name
    simp only [mem_qualified_signatures, hstands, and_assoc]
    exact exists_congr fun parameter => and_congr_right fun _ => and_comm
  · intro settings callback input call hcall
    exact Session.callsOnly_callFirst settings callback rules input hcall

/-- An argument of one name for two functions, which differ in their package. -/
def packagesRules : RuleSet :=
  [⟨⟨"func.p.f.input.a".toList, []⟩, ⟨"x".toList, []⟩⟩,
   ⟨⟨"func.q.f.input.a".toList, []⟩, ⟨"y".toList, []⟩⟩]

/-- The argument of the first function. -/
def packagesParameter : Parameter :=
  ⟨.input, "p".toList, "f".toList, "a".toList, "func.f.input.a".toList, []⟩

/-- Parameters of two functions that are all different. -/
def separateRules : RuleSet :=
  [⟨⟨"func.p.f.input.a".toList, []⟩, ⟨"x".toList, []⟩⟩,
   ⟨⟨"func.q.g.input.a".toList, []⟩, ⟨"y".toList, []⟩⟩,
   ⟨⟨"func.p.f.output.a".toList, []⟩, ⟨"z".toList, "int".toList⟩⟩]

theorem exists_signature_of_source_packages :
    ¬ packagesRules.Finds packagesParameter ∧
    (∃ kept signature, packagesRules.kept? packagesParameter = some kept ∧
      kept.qualified = "q.f".toList ∧
      (packagesRules.signatures.filter fun other => other.qualified = kept.qualified) =
        [signature] ∧
      kept ∈ signature.along kept.direction) ∧
    (∀ parameter ∈ separateRules.described, separateRules.Finds parameter) ∧
    separateRules.signatures.head?.map (·.qualified) = some "p.f".toList := by
  have hsource : Parameter.ofEndpoint ⟨"func.p.f.input.a".toList, []⟩ = .ok packagesParameter := by
    rfl
  have hname : (packagesRules.kept? packagesParameter).map (·.qualified) =
      some "q.f".toList := by decide +kernel
  have hlisted : separateRules.SameListed := by decide +kernel
  have hhead : separateRules.described.head?.map (·.qualified) = some "p.f".toList := by
    decide +kernel
  obtain ⟨hfinds, kept, signature, hkept, hsignature, halong, -⟩ :=
    (exists_signature_of_source packagesRules).1 _ (List.mem_cons_self ..) _ hsource
  obtain ⟨hall, hfirst⟩ := (exists_signature_of_source separateRules).2.2.2.1 hlisted
  rw [hkept] at hname
  refine ⟨?_, ⟨kept, signature, hkept, by simpa using hname, hsignature, halong⟩, hall,
    hfirst.trans hhead⟩
  rw [hfinds]
  decide +kernel

/-- The first function is not found at all. -/
theorem exists_signature_of_source_lost :
    (∃ rule ∈ packagesRules, ∃ parameter, Parameter.ofEndpoint rule.source = .ok parameter ∧
      ∀ signature ∈ packagesRules.signatures, signature.qualified ≠ parameter.qualified) ∧
    packagesRules.signatures.head?.map (·.qualified) ≠
      packagesRules.described.head?.map (·.qualified) := by
  refine ⟨⟨_, List.mem_cons_self .., packagesParameter, rfl, ?_⟩, ?_⟩
  · decide +kernel
  · decide +kernel

end RuleSet

end Reshape
