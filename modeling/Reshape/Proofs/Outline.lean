import Reshape.Proofs.Compile
import Reshape.Proofs.Members

/-!
# What compiled rules give

For rules whose target paths are plain, this module says what evaluating the
compiled rules gives, in terms of the rules alone.

* `Slot.value?` is the value of a tree of plain keys, and `Slot.eval?_stages` says
  that evaluating the expression of the tree gives it.
* `RuleSet.Describes` says of a document what it holds at every place: an object
  where target paths go on, the value of the first rule where one ends.  There is one
  such document only, by `RuleSet.Describes.unique`.
* `RuleSet.describes_outcome` and `RuleSet.get_compile` tie the two together.
-/

namespace Reshape

/-! ## Trees of plain keys -/

mutual

/-- The value of a slot on a document. -/
def Slot.value? (d : Document) : Slot → Option Document
  | .leaf source => (Path.steps? source).bind (evalPath? · d)
  | .branch entries => some (.object (TargetTree.values d entries))

/-- The members of a level that have a value. -/
def TargetTree.values (d : Document) : TargetTree → Members
  | [] => []
  | (key, slot) :: rest => ((slot.value? d).map (key, ·)).toList ++ TargetTree.values d rest

end

namespace TargetTree

variable {tree : TargetTree}

theorem keys_values_sublist (d : Document) (tree : TargetTree) :
    (values d tree).keys.Sublist tree.keys := by
  induction tree with
  | nil => exact .slnil
  | cons entry tree ih =>
    rw [values]
    cases entry.2.value? d with
    | none => exact ih.cons entry.1
    | some value => exact ih.cons_cons entry.1

/-- A member of the value of a level is the value of the slot under its key. -/
theorem get?_values (h : tree.keys.Nodup) (d : Document) (key : Text) :
    (values d tree).get? key = (tree.lookup key).bind (·.value? d) := by
  induction tree with
  | nil => rfl
  | cons entry tree ih =>
    obtain ⟨first, slot⟩ := entry
    rw [keys, List.map_cons, List.nodup_cons] at h
    have hrest := ih h.2
    rw [values, List.lookup_cons]
    by_cases hkey : key = first
    · subst hkey
      simp only [beq_self_eq_true, Option.bind_some]
      cases hvalue : slot.value? d with
      | none =>
        rw [lookup_eq_none_of_notMem h.1] at hrest
        exact hrest
      | some value => simp [Members.get?]
    · have hbeq : (key == first) = false := beq_false_of_ne hkey
      rw [hbeq, ← hrest]
      cases slot.value? d with
      | none => rfl
      | some value => simp [Members.get?, List.lookup_cons, hbeq]

/-- The keys of the value of a level are the keys whose slot has a value. -/
theorem keys_values (h : tree.keys.Nodup) (d : Document) :
    (values d tree).keys =
      tree.keys.filter fun key => ((tree.lookup key).bind (·.value? d)).isSome := by
  induction tree with
  | nil => rfl
  | cons entry tree ih =>
    obtain ⟨first, slot⟩ := entry
    have hcons : keys ((first, slot) :: tree) = first :: keys tree := rfl
    rw [hcons, List.nodup_cons] at h
    have hrest : (keys tree).filter (fun key =>
        ((List.lookup key ((first, slot) :: tree)).bind (·.value? d)).isSome) =
        (keys tree).filter fun key => ((tree.lookup key).bind (·.value? d)).isSome := by
      apply List.filter_congr
      intro key hkey
      have hne : key ≠ first := fun he => h.1 (he ▸ hkey)
      rw [List.lookup_cons, beq_false_of_ne hne]
    rw [hcons, List.filter_cons, hrest, ← ih h.2, values, List.lookup_cons_self, Option.bind_some]
    cases slot.value? d with
    | none => rfl
    | some value => rfl

/-- A literal whose members give the values of a level gives the value of the level. -/
theorem evalMembers_eq {stages : Text × Slot → Expression} {d : Document}
    (h : ∀ entry ∈ tree, Expression.eval? (stages entry) d = entry.2.value? d) :
    Stage.evalMembers (tree.map fun entry => (entry.1, stages entry)) d = values d tree := by
  induction tree with
  | nil => rfl
  | cons entry tree ih =>
    obtain ⟨hfirst, hothers⟩ := List.forall_mem_cons.1 h
    rw [List.map_cons, Stage.evalMembers, hfirst, ih hothers, values]
    cases entry.2.value? d with
    | none => rfl
    | some value => rfl

/-- A literal whose members are as deep as the slots of a level is as deep as the level
is high. -/
theorem depthOfMembers_eq {stages : Text × Slot → Expression}
    (h : ∀ entry ∈ tree, Expression.depth (stages entry) = entry.2.height) :
    1 + Stage.depthOfMembers (tree.map fun entry => (entry.1, stages entry)) =
      max 1 (height tree) := by
  induction tree with
  | nil => rfl
  | cons entry tree ih =>
    obtain ⟨hfirst, hothers⟩ := List.forall_mem_cons.1 h
    have hrest := ih hothers
    rw [List.map_cons, Stage.depthOfMembers, hfirst, height]
    omega

end TargetTree

namespace Slot

theorem every_of_at? {level : TargetTree → Prop} {source : Text → Prop} {slot below : Slot}
    {place : List Text} (h : slot.Every level source) (hat : slot.at? place = some below) :
    below.Every level source := by
  induction place generalizing slot with
  | nil =>
    obtain rfl : slot = below := by simpa using hat
    exact h
  | cons key place ih =>
    cases slot with
    | leaf text => simp [entries] at hat
    | branch entries =>
      rw [at?_cons, Option.bind_eq_some_iff] at hat
      obtain ⟨child, hchild, hbelow⟩ := hat
      rw [Slot.Every, TargetTree.every_iff] at h
      exact ih (h.2 _ (mem_of_lookup hchild)) hbelow

/-- A list of keys leads to the same place in a tree and in its value. -/
theorem at?_value? {source : Text → Prop} {slot below : Slot} {place : List Text}
    (h : slot.Every TargetTree.IsPlain source) (hat : slot.at? place = some below)
    (d : Document) : (slot.value? d).bind (Document.at? place) = below.value? d := by
  induction place generalizing slot with
  | nil =>
    obtain rfl : slot = below := by simpa using hat
    cases slot.value? d <;> rfl
  | cons key place ih =>
    cases slot with
    | leaf text => simp [entries] at hat
    | branch entries =>
      rw [at?_cons, Option.bind_eq_some_iff] at hat
      obtain ⟨child, hchild, hbelow⟩ := hat
      rw [Slot.Every, TargetTree.every_iff] at h
      rw [← ih (h.2 _ (mem_of_lookup hchild)) hbelow, value?, Option.bind_some, Document.at?,
        Document.membersOrNone, TargetTree.get?_values h.1.2.1]
      have hlookup : entries.lookup key = some child := hchild
      rw [hlookup, Option.bind_some]

/-- Evaluating the expression of a tree of plain keys gives its value. -/
theorem eval?_stages {slot : Slot} (h : slot.Every TargetTree.IsPlain Path.IsReadable)
    (depth : Nat) {key : Text} (hkey : key ≠ Path.each) (d : Document) :
    Expression.eval? (slot.stages false depth key) d = slot.value? d := by
  induction slot using Slot.induction generalizing key with
  | leaf source =>
    rw [Slot.Every] at h
    obtain ⟨steps, hsteps⟩ := Option.isSome_iff_exists.1 h
    simp [stages, value?, hsteps, Expression.eval?, Expression.pass?, Stage.eval?]
  | branch entries ih =>
    rw [Slot.Every, TargetTree.every_iff] at h
    obtain ⟨hlevel, hentries⟩ := h
    have hmembers : Stage.evalMembers (entries.map fun entry =>
        (entry.1, entry.2.stages (key = Path.each) depth entry.1)) d =
        TargetTree.values d entries := by
      apply TargetTree.evalMembers_eq
      intro entry hentry
      rw [decide_eq_false hkey]
      exact ih entry hentry (hentries entry hentry)
        (Path.ne_each_of_isPlain (hlevel.2.2 entry.1 (List.mem_map_of_mem hentry)))
    have hnodup : ((TargetTree.values d entries).map (·.1)).Nodup :=
      (TargetTree.keys_values_sublist d entries).nodup hlevel.2.1
    rw [stages_of_isPlain hlevel, if_neg hkey]
    simp [Expression.eval?, Expression.pass?, Stage.eval?, hmembers,
      Members.ofList_of_nodup hnodup, value?]

/-- The expression of a tree of plain keys is nested as deeply as the tree is
high. -/
theorem depth_stages {source : Text → Prop} {slot : Slot}
    (h : slot.Every TargetTree.IsPlain source) (depth : Nat) {key : Text}
    (hkey : key ≠ Path.each) :
    Expression.depth (slot.stages false depth key) = slot.height := by
  induction slot using Slot.induction generalizing key with
  | leaf text => simp [stages, Expression.depth, Stage.depth, height]
  | branch entries ih =>
    rw [Slot.Every, TargetTree.every_iff] at h
    obtain ⟨hlevel, hentries⟩ := h
    have hmembers : 1 + Stage.depthOfMembers (entries.map fun entry =>
        (entry.1, entry.2.stages (key = Path.each) depth entry.1)) =
        max 1 (TargetTree.height entries) := by
      apply TargetTree.depthOfMembers_eq
      intro entry hentry
      rw [decide_eq_false hkey]
      exact ih entry hentry (hentries entry hentry)
        (Path.ne_each_of_isPlain (hlevel.2.2 entry.1 (List.mem_map_of_mem hentry)))
    obtain ⟨entry, rest, rfl⟩ := List.exists_cons_of_ne_nil hlevel.1
    have hpos : 1 ≤ TargetTree.height (entry :: rest) := by
      rw [TargetTree.height]
      omega
    rw [stages_of_isPlain hlevel, if_neg hkey, height]
    simp only [Bool.false_eq_true, if_false, List.append_nil, Expression.depth, Stage.depth]
    omega

end Slot

/-! ## Rules -/

/-- The value of a rule on a document. -/
def Rule.value? (document : Document) (rule : Rule) : Option Document :=
  rule.steps?.bind (evalPath? · document)

instance (lists : List (List Text)) (place : List Text) : Decidable (IsInner lists place) :=
  inferInstanceAs (Decidable (_ ∨ _))

namespace RuleSet

/-- The places that the rules fill. -/
def destinations (rules : RuleSet) : List (List Text) :=
  rules.map fun rule => Path.segments rule.target.path

/-- The value of the first rule for a place. -/
def valueAt? (rules : RuleSet) (document : Document) (place : List Text) : Option Document :=
  (rules.find? fun rule => Path.segments rule.target.path = place).bind (·.value? document)

/-- Whether there is something at a place: an object or a value. -/
def isFilled (rules : RuleSet) (document : Document) (place : List Text) : Bool :=
  decide (IsInner rules.destinations place) || (rules.valueAt? document place).isSome

/-- The result holds at every place what the rules say.  Where target paths go on it
holds an object, with the next keys in the order in which the rules mention them
first.  Where a target path ends and none goes on it holds the value of the first
rule for that path, and nothing if there is no value. -/
structure Describes (rules : RuleSet) (document result : Document) : Prop where
  inner : ∀ place, IsInner rules.destinations place →
    ∃ members : Members, result.at? place = some (.object members) ∧
      members.keys = (nextKeys rules.destinations place).filter fun key =>
        rules.isFilled document (place ++ [key])
  outer : ∀ place ∈ rules.destinations, ¬ IsInner rules.destinations place →
    result.at? place = rules.valueAt? document place

/-- The document that rules with plain target paths make of a document. -/
def outcome (rules : RuleSet) (document : Document) : Document :=
  .object (TargetTree.values document (rules.fields .standard))

/-- Rules with plain target paths and readable sources. -/
structure IsPlain (rules : RuleSet) : Prop where
  targets : ∀ rule ∈ rules, rule.target.path.isPlain = true
  sources : ∀ rule ∈ rules, rule.source.path = [] ∨ rule.source.path.IsReadable

theorem map_fst_placements (rules : RuleSet) :
    (rules.placements .standard).map (·.1) = rules.destinations := by
  simp [placements, destinations, Function.comp_def]

theorem ne_nil_of_mem_placements {rules : RuleSet} :
    ∀ entry ∈ rules.placements .standard, entry.1 ≠ [] := by
  intro entry hentry
  obtain ⟨rule, -, rfl⟩ := List.mem_map.1 hentry
  exact Path.segments_ne_nil _

/-- What the tree of the rules holds at a place. -/
theorem holdsAt_fields (rules : RuleSet) (place : List Text) :
    TargetTree.HoldsAt (rules.placements .standard) place (rules.fields .standard) :=
  TargetTree.holdsAt_ofInserts _ place

/-- The value of a leaf of the tree is the value of the first rule for its place. -/
theorem value?_find?_placements (rules : RuleSet) (document : Document) (place : List Text) :
    (((rules.placements .standard).find? (·.1 = place)).map fun entry => Slot.leaf entry.2).bind
      (·.value? document) = rules.valueAt? document place := by
  rw [placements, List.find?_map, valueAt?]
  simp only [Function.comp_def, Option.map_map]
  cases rules.find? fun rule => decide (Path.segments rule.target.path = place) with
  | none => rfl
  | some rule =>
    simp [Slot.value?, Rule.value?, Rule.steps?_coercedSource]

/-- There is a value at a place of the tree if and only if the rules fill it. -/
theorem isSome_value?_at? (rules : RuleSet) (document : Document) (place : List Text) :
    (((Slot.branch (rules.fields .standard)).at? place).bind (·.value? document)).isSome =
      rules.isFilled document place := by
  have hholds := holdsAt_fields rules place
  by_cases hinner : IsInner rules.destinations place
  · rw [hholds.inner (map_fst_placements rules ▸ hinner)]
    simp [isFilled, hinner, Slot.value?]
  · rw [hholds.outer (map_fst_placements rules ▸ hinner), value?_find?_placements]
    simp [isFilled, hinner]

section

variable {rules : RuleSet} (h : rules.IsPlain) (hne : rules ≠ [])

include h hne

/-- All levels of the tree of plain rules are plain, and its leaves are the sources of the
rules. -/
theorem every_fields_of {source : Text → Prop}
    (hsource : ∀ rule ∈ rules, source (rule.coercedSource .standard)) :
    (Slot.branch (rules.fields .standard)).Every TargetTree.IsPlain source := by
  apply TargetTree.every_ofInserts
  · simpa [placements] using hne
  · exact ne_nil_of_mem_placements
  · intro entry hentry
    obtain ⟨rule, hrule, rfl⟩ := List.mem_map.1 hentry
    exact fun key hkey => Path.isPlain_of_mem_segments (h.targets rule hrule) hkey
  · intro entry hentry
    obtain ⟨rule, hrule, rfl⟩ := List.mem_map.1 hentry
    exact hsource rule hrule

theorem every_fields :
    (Slot.branch (rules.fields .standard)).Every TargetTree.IsPlain Path.IsReadable := by
  apply every_fields_of h hne
  intro rule hrule
  rw [Path.IsReadable, Rule.steps?_coercedSource, Rule.steps?, Option.isSome_map]
  rcases h.sources rule hrule with hempty | hreadable
  · simp [hempty]
  · split
    · rfl
    · exact hreadable

theorem describes_outcome_of_ne_nil (document : Document) :
    rules.Describes document (rules.outcome document) := by
  have hevery := every_fields h hne
  have hvalue : ∀ {place : List Text} {slot : Slot},
      (Slot.branch (rules.fields .standard)).at? place = some slot →
      (rules.outcome document).at? place = slot.value? document :=
    fun hat => Slot.at?_value? hevery hat document
  constructor
  · intro place hinner
    have hholds := holdsAt_fields rules place
    have hat := hholds.inner (map_fst_placements rules ▸ hinner)
    have hlevel := Slot.every_of_at? hevery hat
    rw [Slot.Every] at hlevel
    refine ⟨_, hvalue hat, ?_⟩
    rw [TargetTree.keys_values hlevel.1.2.1, hholds.keys, map_fst_placements]
    apply List.filter_congr
    intro key _
    rw [← isSome_value?_at?, Slot.at?_append, hat, Option.bind_some, Slot.at?_cons, Slot.entries]
    cases (TargetTree.entriesAt place (rules.fields .standard)).lookup key with
    | none => rfl
    | some slot => rfl
  · intro place hplace houter
    have hholds := holdsAt_fields rules place
    have hat := hholds.outer (map_fst_placements rules ▸ houter)
    have hfound : ((rules.placements .standard).find? (·.1 = place)).isSome = true := by
      rw [← map_fst_placements, List.mem_map] at hplace
      obtain ⟨entry, hentry, rfl⟩ := hplace
      rw [List.find?_isSome]
      exact ⟨entry, hentry, by simp⟩
    obtain ⟨entry, hentry⟩ := Option.isSome_iff_exists.1 hfound
    rw [hentry, Option.map_some] at hat
    rw [hvalue hat, ← value?_find?_placements, hentry, Option.map_some, Option.bind_some]

/-- Compiled plain rules are read as the expression of their tree. -/
theorem get_compile_eq (document : Document) (maxDepth : Nat) :
    Projection.get maxDepth document (rules.compile .standard) =
      if maxDepth < TargetTree.height (rules.fields .standard) then
        .error (Projection.tooDeep maxDepth
          ((Slot.branch (rules.fields .standard)).stages false 0 []))
      else .ok (some (rules.outcome document)) := by
  have hevery := every_fields h hne
  have hbound : 0 + (Slot.branch (rules.fields .standard)).arrays ≤ 2 ^ 64 := by
    rw [TargetTree.arrays_of_isPlain hevery]
    decide
  have hrenders := Slot.renders
    (TargetTree.every_mono (fun _ hlevel => .inl hlevel) hevery) hbound false []
  rw [← compile_eq hne (fun rule hrule => Rule.targetKeys_of_isPlain (h.targets rule hrule))
    fun rule hrule => Path.ne_nil_of_isPlain (h.targets rule hrule)] at hrenders
  have hroot : ([] : Text) ≠ Path.each := by decide
  rw [hrenders.get_eq, Projection.evaluate, Slot.depth_stages hevery 0 hroot,
    Slot.eval?_stages hevery 0 hroot]
  rfl

end

/-- The outcome of plain rules holds at every place what the rules say. -/
theorem describes_outcome {rules : RuleSet} (h : rules.IsPlain) (document : Document) :
    rules.Describes document (rules.outcome document) := by
  by_cases hne : rules = []
  · subst hne
    constructor
    · intro place hinner
      obtain rfl : place = [] := by simpa [IsInner, destinations] using hinner
      exact ⟨[], rfl, rfl⟩
    · intro place hplace
      simp [destinations] at hplace
  · exact describes_outcome_of_ne_nil h hne document

/-- Rules describe one result only. -/
theorem Describes.unique {rules : RuleSet} {document first second : Document}
    (hfirst : rules.Describes document first) (hsecond : rules.Describes document second) :
    first = second := by
  have hbound : ∀ keys ∈ rules.destinations,
      keys.length ≤ (rules.destinations.map List.length).sum := fun keys hkeys =>
    List.le_sum_of_mem (List.mem_map_of_mem hkeys)
  -- from the ends of the target paths back to the root
  have hplaces : ∀ place, IsInner rules.destinations place ∨ place ∈ rules.destinations →
      first.at? place = second.at? place := by
    intro place hplace
    induction hn : (rules.destinations.map List.length).sum - place.length
      using Nat.strong_induction_on generalizing place with
    | _ n ih =>
    by_cases hinner : IsInner rules.destinations place
    · obtain ⟨members, hmembers, hkeys⟩ := hfirst.inner place hinner
      obtain ⟨others, hothers, hkeys'⟩ := hsecond.inner place hinner
      have hnodup : members.keys.Nodup := hkeys ▸ (nodup_distinct _).filter _
      have hbelow : ∀ key ∈ members.keys, members.get? key = others.get? key := by
        intro key hkey
        rw [hkeys] at hkey
        obtain ⟨keys, hmem, hway⟩ := mem_nextKeys.1 (List.mem_filter.1 hkey).1
        have hlength := hway.length_le
        have hlist := hbound keys hmem
        rw [List.length_append, List.length_singleton] at hlength
        have hnext : IsInner rules.destinations (place ++ [key]) ∨
            place ++ [key] ∈ rules.destinations := by
          by_cases hend : place ++ [key] = keys
          · exact .inr (hend ▸ hmem)
          · exact .inl (.inr ⟨keys, hmem, hway, hend⟩)
        have heq := ih _ (by rw [List.length_append, List.length_singleton]; omega) _ hnext rfl
        simpa [Document.at?_append, hmembers, hothers, Document.at?, Document.membersOrNone]
          using heq
      rw [hmembers, hothers, Members.eq_of_get? hnodup (hkeys.trans hkeys'.symm) hbelow]
    · have hend := hplace.resolve_left hinner
      rw [hfirst.outer place hend hinner, hsecond.outer place hend hinner]
  simpa [Document.at?] using hplaces [] (.inl (.inl rfl))

/-- A target path is too long if and only if the tree is too high. -/
theorem lt_height_fields_iff {rules : RuleSet} {maxDepth : Nat} :
    maxDepth < TargetTree.height (rules.fields .standard) ↔
      ∃ rule ∈ rules, maxDepth < (Path.segments rule.target.path).length := by
  rw [← Nat.not_le, fields, TargetTree.height_ofInserts_le_iff]
  simp [placements]

/-- Within the allowed nesting, plain rules give their outcome, and no rules give
nothing. -/
theorem get_compile_of_le {rules : RuleSet} (h : rules.IsPlain) {maxDepth : Nat}
    (hdepth : ∀ rule ∈ rules, (Path.segments rule.target.path).length ≤ maxDepth)
    (document : Document) :
    Projection.get maxDepth document (rules.compile .standard) =
      .ok (if rules = [] then none else some (rules.outcome document)) := by
  by_cases hne : rules = []
  · subst hne
    rfl
  · have hnot : ¬ maxDepth < TargetTree.height (rules.fields .standard) := by
      rw [lt_height_fields_iff]
      rintro ⟨rule, hrule, hlong⟩
      have := hdepth rule hrule
      omega
    rw [get_compile_eq h hne, if_neg hnot, if_neg hne]

/-- Compiled rules with plain target paths: the only error is a target path that is
longer than the allowed nesting, and otherwise the result is the document that the
rules describe. -/
theorem get_compile {rules : RuleSet} (hne : rules ≠ []) (h : rules.IsPlain)
    (document : Document) (maxDepth : Nat) :
    ((∃ message expression,
        Projection.get maxDepth document (rules.compile .standard) =
          .error (.execution message expression)) ↔
      ∃ rule ∈ rules, maxDepth < (Path.segments rule.target.path).length) ∧
    ((∀ rule ∈ rules, (Path.segments rule.target.path).length ≤ maxDepth) →
      ∃ result,
        Projection.get maxDepth document (rules.compile .standard) = .ok (some result) ∧
        rules.Describes document result) := by
  constructor
  · rw [get_compile_eq h hne, ← lt_height_fields_iff]
    constructor
    · intro herror
      by_contra hwithin
      simp [hwithin] at herror
    · intro hdeep
      rw [if_pos hdeep]
      exact ⟨_, _, rfl⟩
  · intro hwithin
    refine ⟨rules.outcome document, ?_, describes_outcome h document⟩
    rw [get_compile_of_le h hwithin, if_neg hne]

/-- Rules of which one ends where another goes on, two end at one place, and one has
no source. -/
def overlapping : RuleSet :=
  [⟨⟨"a".toList, []⟩, ⟨"x".toList, []⟩⟩,
   ⟨⟨"rows.#.n".toList, []⟩, ⟨"x.sum".toList, "int".toList⟩⟩,
   ⟨⟨"missing".toList, []⟩, ⟨"x.none".toList, []⟩⟩,
   ⟨⟨"@this.@flatten".toList, []⟩, ⟨"x.sum".toList, []⟩⟩,
   ⟨⟨[], []⟩, ⟨"all".toList, "String".toList⟩⟩]

theorem get_compile_overlapping :
    overlapping ≠ [] ∧ overlapping.IsPlain ∧
    ∃ result,
      Projection.get 2 (.object [("rows".toList, .array [.object [("n".toList, .bool true)]])])
          (overlapping.compile .standard) = .ok (some result) ∧
      overlapping.Describes
        (.object [("rows".toList, .array [.object [("n".toList, .bool true)]])]) result :=
  have hne : overlapping ≠ [] := by decide
  have hplain : overlapping.IsPlain := ⟨by decide, by decide +kernel⟩
  ⟨hne, hplain, (get_compile hne hplain _ 2).2 (by decide)⟩

end RuleSet

end Reshape
