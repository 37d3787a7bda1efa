import Reshape.Proofs.Selection

/-!
# Sets of rules under edits

A set of rules begins empty and is changed by edits.  Most edits build a new set by
upserting, and the others rearrange or turn round the rules that are there.  `Edit.run` is
the set after some edits.

* `Edit.apart_apply` and `Edit.apart_run`: no edit brings about two rules that are the same
  rule, whatever functions change the paths.
* `Edit.positions_run` says this of the positions of the rules, together with what adding a
  rule does to each position.
* `RuleSet.collected_eq_lasts` gives what upserting makes of a whole list of rules.
-/

namespace Reshape

/-- The four texts of the rules agree up to the case of ASCII letters. -/
def Rule.Agree (left right : Rule) : Prop :=
  Text.sameLetters left.source.path right.source.path = true ∧
  Text.sameLetters left.source.type right.source.type = true ∧
  Text.sameLetters left.target.path right.target.path = true ∧
  Text.sameLetters left.target.type right.target.type = true

theorem Rule.same_iff_agree {left right : Rule} :
    Rule.same left right = true ↔ left.Agree right := by
  simp [Rule.same, Endpoint.same, Rule.Agree, and_assoc]

/-! ## Rearranging rules -/

namespace RuleSet

variable {rules : RuleSet}

theorem apart_swapped (h : Apart Rule.same rules) : Apart Rule.same rules.swapped := by
  rw [Apart, swapped, List.pairwise_map]
  refine List.Pairwise.imp ?_ h
  intro left right hfalse
  rw [← hfalse]
  exact Bool.and_comm _ _

theorem apart_sortedBySource (h : Apart Rule.same rules) :
    Apart Rule.same rules.sortedBySource := by
  have hsymm : ∀ {left right}, Rule.same left right = false → Rule.same right left = false := by
    intro left right hfalse
    rw [same_comm Rule.same_iff, hfalse]
  exact (List.Perm.pairwise_iff hsymm (List.mergeSort_perm rules _)).2 h

end RuleSet

/-! ## Collecting rules -/

namespace RuleSet

/-- Collecting rules leaves the last rule of each identity, in the order in which the
identities occur first.  Adding rules to a set in which no identity occurs twice is collecting
the rules of the set and then the others. -/
theorem collected_eq_lasts (list : List Rule) :
    collected list =
        (list.map Rule.identity).eraseDups.filterMap
          (fun identity => (list.filter (·.identity = identity)).getLast?) ∧
      ∀ rules : RuleSet, (rules.map Rule.identity).Nodup →
        rules.addAll list = collected (rules ++ list) := by
  constructor
  · rw [← distinct_eq_eraseDups]
    exact collect_eq_filterMap Rule.same_iff list
  · intro rules hnodup
    exact upsertAll_of_apart ((apart_iff_nodup Rule.same_iff).2 hnodup) list

/-- Rules that come back in other spellings, one of them with the spellings mixed. -/
def respelled : List Rule :=
  [⟨⟨"fee.net".toList, []⟩, ⟨"Net".toList, "int".toList⟩⟩,
    ⟨⟨"fee.tax".toList, []⟩, ⟨"tax".toList, []⟩⟩,
    ⟨⟨"FEE.NET".toList, []⟩, ⟨"net".toList, "INT".toList⟩⟩,
    ⟨⟨"fee.net".toList, []⟩, ⟨"net".toList, []⟩⟩,
    ⟨⟨"fee.Tax".toList, []⟩, ⟨"TAX".toList, []⟩⟩,
    ⟨⟨"Fee.net".toList, []⟩, ⟨"NET".toList, "Int".toList⟩⟩]

def spelled : RuleSet :=
  [⟨⟨"FEE.tax".toList, []⟩, ⟨"Tax".toList, []⟩⟩, ⟨⟨"due".toList, []⟩, ⟨"date".toList, []⟩⟩]

theorem collected_eq_lasts_respelled :
    (collected respelled).map Rule.text =
        ["Fee.net:NET@Int".toList, "fee.Tax:TAX".toList, "fee.net:net".toList] ∧
      (spelled.map Rule.identity).Nodup ∧
      spelled.addAll respelled = collected (spelled ++ respelled) ∧
      (collected (spelled ++ respelled)).map Rule.text =
        ["fee.Tax:TAX".toList, "due:date".toList, "Fee.net:NET@Int".toList,
          "fee.net:net".toList] :=
  ⟨by decide +kernel, by decide +kernel,
    (collected_eq_lasts respelled).2 spelled (by decide +kernel), by decide +kernel⟩

end RuleSet

/-! ## Edits -/

/-- A change of a set of rules. -/
inductive Edit where
  | add (rule : Rule)
  | addAll (rules : List Rule)
  | swap
  | sort
  | keepInputs
  | keepOutputs
  | pickSources (paths : List Path)
  | pickTargets (paths : List Path)
  | keepUnder (space : Text)
  /-- Changes all source paths by some functions, one after the other. -/
  | mapSources (changes : List (Path → Path))
  /-- Changes all target paths by some functions, one after the other. -/
  | mapTargets (changes : List (Path → Path))

namespace Edit

def apply (rules : RuleSet) : Edit → RuleSet
  | add rule => rules.add rule
  | addAll more => rules.addAll more
  | swap => rules.swapped
  | sort => rules.sortedBySource
  | keepInputs => rules.inputs
  | keepOutputs => rules.outputs
  | pickSources paths => rules.pick (·.source) paths
  | pickTargets paths => rules.pick (·.target) paths
  | keepUnder space => rules.under space
  | mapSources changes => rules.mapSources fun path => changes.foldl (fun path f => f path) path
  | mapTargets changes => rules.mapTargets fun path => changes.foldl (fun path f => f path) path

/-- The set of rules after some edits, starting from no rules. -/
def run (edits : List Edit) : RuleSet :=
  edits.foldl apply []

theorem apart_apply {rules : RuleSet} (h : Apart Rule.same rules) (edit : Edit) :
    Apart Rule.same (edit.apply rules) := by
  cases edit with
  | add rule => exact apart_upsert Rule.same_iff rule h
  | addAll more => exact apart_upsertAll Rule.same_iff h more
  | swap => exact RuleSet.apart_swapped h
  | sort => exact RuleSet.apart_sortedBySource h
  | keepInputs => exact RuleSet.apart_collected _
  | keepOutputs => exact RuleSet.apart_collected _
  | pickSources paths => exact RuleSet.apart_collected _
  | pickTargets paths => exact RuleSet.apart_collected _
  | keepUnder space => exact RuleSet.apart_collected _
  | mapSources changes => exact RuleSet.apart_collected _
  | mapTargets changes => exact RuleSet.apart_collected _

theorem apart_run (edits : List Edit) : Apart Rule.same (run edits) :=
  List.foldlRecOn (motive := Apart Rule.same) edits _ List.Pairwise.nil
    fun _ h edit _ => apart_apply h edit

theorem run_append_add (edits : List Edit) (rule : Rule) :
    run (edits ++ [add rule]) = upsert Rule.same rule (run edits) := by
  rw [run, List.foldl_append]
  rfl

/-- After any edits, two positions never hold rules that agree.  Adding a rule then puts it
at one position and leaves all others as they are; the set grows by one rule if no rule in
it agrees with the new one, and has as many rules as before otherwise. -/
theorem positions_run (edits : List Edit) :
    (∀ (i j : Nat) (left right : Rule), (run edits)[i]? = some left →
      (run edits)[j]? = some right → left.Agree right → i = j) ∧
    ∀ rule, ∃ place ≤ (run edits).length,
      (run (edits ++ [add rule]))[place]? = some rule ∧
      (∀ other, other ≠ place → (run (edits ++ [add rule]))[other]? = (run edits)[other]?) ∧
      ((run (edits ++ [add rule])).length = (run edits).length + 1 ↔
        ∀ old ∈ run edits, ¬ old.Agree rule) ∧
      ((run (edits ++ [add rule])).length = (run edits).length ↔
        ∃ old ∈ run edits, old.Agree rule) := by
  constructor
  · intro i j left right hleft hright hagree
    exact index_eq_of_apart Rule.same_iff (apart_run edits) hleft hright
      (Rule.same_iff_agree.2 hagree)
  · intro rule
    have hany : (run edits).any (Rule.same · rule) = true ↔ ∃ old ∈ run edits, old.Agree rule := by
      simp only [List.any_eq_true, Rule.same_iff_agree]
    refine ⟨(run edits).findIdx (Rule.same · rule), List.findIdx_le_length, ?_, ?_, ?_, ?_⟩
    · rw [run_append_add, getElem?_upsert, if_pos rfl]
    · intro other hother
      rw [run_append_add, getElem?_upsert, if_neg hother]
    · rw [run_append_add, length_upsert]
      split
      · rename_i hold
        obtain ⟨old, hmem, hagree⟩ := hany.1 hold
        exact iff_of_false (by omega) fun hnone => hnone old hmem hagree
      · rename_i hnew
        refine iff_of_true rfl fun old hmem hagree => hnew (hany.2 ⟨old, hmem, hagree⟩)
    · rw [run_append_add, length_upsert]
      split
      · rename_i hold
        exact iff_of_true rfl (hany.1 hold)
      · rename_i hnew
        exact iff_of_false (by omega) fun hold => hnew (hany.2 hold)

/-- Two rules become the same rule when their sources are cut off, and are turned round
then. -/
def collapsing : List Edit :=
  [addAll [⟨⟨"rate.low".toList, []⟩, ⟨"Sum".toList, "int".toList⟩⟩,
      ⟨⟨"fee".toList, []⟩, ⟨"total".toList, []⟩⟩,
      ⟨⟨"RATE.high".toList, []⟩, ⟨"sum".toList, "INT".toList⟩⟩],
    mapSources [fun path => path.take 4], swap]

theorem positions_run_collapsing :
    (run collapsing).map Rule.text = ["sum@INT:RATE".toList, "total:fee".toList] ∧
    (∀ (i j : Nat) (left right : Rule), (run collapsing)[i]? = some left →
      (run collapsing)[j]? = some right → left.Agree right → i = j) :=
  ⟨by decide +kernel, (positions_run collapsing).1⟩

end Edit

end Reshape
