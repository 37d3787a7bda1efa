import Reshape.Proofs.Invocation

/-!
# Rules read backwards

Rules between plain paths copy values from their sources to their targets.  If
the targets do not get in each other's way, each of them holds exactly the value
of its source, or nothing if the source has none.  If the sources do not get in
each other's way either, the rules can be read in the other direction, and then
every value goes back to where it came from.

* `Document.resolve?_eq_at?`: a path through objects is resolved key by key.
* `RuleSet.IsReversible.resolve?_outcome`: what a target holds after a
  projection.
* `RuleSet.get_compile_swapped`: a projection and then its reversal.
-/

namespace Reshape

/-! ## Paths that do not meet -/

namespace Path

/-- Two paths are apart if they differ and neither of them goes on behind the
other. -/
def IsApart (left right : Path) : Prop :=
  left ≠ right ∧ ¬ left ++ ['.'] <+: right ∧ ¬ right ++ ['.'] <+: left

instance (left right : Path) : Decidable (left.IsApart right) :=
  inferInstanceAs (Decidable (_ ∧ _ ∧ _))

instance : Std.Symm IsApart :=
  ⟨fun _ _ h => ⟨h.1.symm, h.2.2, h.2.1⟩⟩

/-- The keys of a path do not begin with those of a path that is apart from it. -/
theorem IsApart.not_isPrefix {left right : Path} (h : left.IsApart right) :
    ¬ segments left <+: segments right := by
  rintro ⟨rest, hrest⟩
  have hright := Text.dot_cons_eq_flatMap right
  rw [← hrest, List.flatMap_append, ← Text.dot_cons_eq_flatMap, List.cons_append,
    List.cons.injEq] at hright
  cases rest with
  | nil => exact h.1 (by simpa using hright.2.symm)
  | cons key rest => exact h.2.1 ⟨key ++ rest.flatMap ('.' :: ·), by simp [hright.2]⟩

end Path

/-! ## Resolving through objects -/

/-- A path whose keys lead through objects is resolved key by key. -/
theorem Document.resolve?_eq_at? {path : Path} {document : Document}
    (h : ∀ place, place <+: Path.segments path → place ≠ Path.segments path →
      ∃ members, document.at? place = some (.object members)) :
    document.resolve? path = document.at? (Path.segments path) := by
  rw [resolve?]
  generalize Path.segments path = keys at h ⊢
  induction keys generalizing document with
  | nil => rfl
  | cons key keys ih =>
    obtain ⟨members, hmembers⟩ := h [] List.nil_prefix (by simp)
    obtain rfl : document = .object members := by simpa [at?] using hmembers
    rw [List.map_cons, evalPath?, child?, at?, membersOrNone]
    cases hvalue : Members.get? members key with
    | none => rfl
    | some value =>
      rw [Option.bind_some, Option.bind_some]
      apply ih
      intro place hway hne
      obtain ⟨below, hbelow⟩ := h (key :: place) (by simpa using hway) (by simpa using hne)
      rw [at?, membersOrNone, hvalue, Option.bind_some] at hbelow
      exact ⟨below, hbelow⟩

namespace RuleSet

/-! ## Reversible rules -/

/-- Rules without types between plain paths, of which neither the sources nor the
targets meet. -/
structure IsReversible (rules : RuleSet) : Prop where
  untyped : ∀ rule ∈ rules, rule.source.type = [] ∧ rule.target.type = []
  plain : ∀ rule ∈ rules, rule.source.path.isPlain = true ∧ rule.target.path.isPlain = true
  sources : (rules.map (·.source.path)).Pairwise Path.IsApart
  targets : (rules.map (·.target.path)).Pairwise Path.IsApart

namespace IsReversible

variable {rules : RuleSet}

/-- Rules that can be read backwards can be read forwards again. -/
theorem swapped (h : rules.IsReversible) : rules.swapped.IsReversible := by
  constructor
  · intro rule hrule
    obtain ⟨original, horiginal, rfl⟩ := List.mem_map.1 hrule
    exact (h.untyped original horiginal).symm
  · intro rule hrule
    obtain ⟨original, horiginal, rfl⟩ := List.mem_map.1 hrule
    exact (h.plain original horiginal).symm
  · rw [RuleSet.swapped, List.map_map]
    exact h.targets
  · rw [RuleSet.swapped, List.map_map]
    exact h.sources

theorem isPlain (h : rules.IsReversible) : rules.IsPlain := by
  constructor
  · exact fun rule hrule => (h.plain rule hrule).2
  · intro rule hrule
    right
    rw [Path.IsReadable, Path.steps?_of_isPlain (h.plain rule hrule).1]
    rfl

/-- No target path goes on behind another one. -/
theorem not_isInner (h : rules.IsReversible) {rule : Rule} (hrule : rule ∈ rules) :
    ¬ IsInner rules.destinations (Path.segments rule.target.path) := by
  rintro (hnil | ⟨keys, hkeys, hway, hne⟩)
  · exact Path.segments_ne_nil _ hnil
  · obtain ⟨other, hother, rfl⟩ := List.mem_map.1 hkeys
    have hdiffer : rule.target.path ≠ other.target.path := fun heq => hne (by rw [heq])
    have hapart := h.targets.forall (List.mem_map_of_mem hrule) (List.mem_map_of_mem hother)
      hdiffer
    exact hapart.not_isPrefix hway

/-- The value for the place of a rule is the value of its source. -/
theorem valueAt?_target (h : rules.IsReversible) {rule : Rule} (hrule : rule ∈ rules)
    (document : Document) :
    rules.valueAt? document (Path.segments rule.target.path) =
      document.resolve? rule.source.path := by
  have hnodup : (rules.map (·.target.path)).Nodup := h.targets.imp fun hapart => hapart.1
  have hfirst : rules.find? (fun other =>
      Path.segments other.target.path = Path.segments rule.target.path) = some rule := by
    cases hfound : rules.find? (fun other =>
        Path.segments other.target.path = Path.segments rule.target.path) with
    | none => exact absurd (List.find?_eq_none.1 hfound rule hrule) (by simp)
    | some first =>
      have hsegments : Path.segments first.target.path = Path.segments rule.target.path := by
        simpa using List.find?_some hfound
      have htarget : first.target.path = rule.target.path := by
        rw [← Path.ofSegments_segments first.target.path, hsegments, Path.ofSegments_segments]
      rw [List.inj_on_of_nodup_map hnodup (List.mem_of_find?_eq_some hfound) hrule htarget]
  have hplain := (h.plain rule hrule).1
  have htype : Modifier.ofType? rule.target.type = none := by
    rw [(h.untyped rule hrule).2]
    decide
  rw [valueAt?, hfirst, Option.bind_some, Rule.value?, Rule.steps?, htype,
    if_neg (Path.ne_nil_of_isPlain hplain), Path.steps?_of_isPlain hplain]
  simp [Document.resolve?]

/-- After a projection every target holds what its source holds in the document. -/
theorem resolve?_outcome (h : rules.IsReversible) {rule : Rule} (hrule : rule ∈ rules)
    (document : Document) :
    (rules.outcome document).resolve? rule.target.path =
      document.resolve? rule.source.path := by
  have hdescribes := describes_outcome h.isPlain document
  have hmem : Path.segments rule.target.path ∈ rules.destinations := List.mem_map_of_mem hrule
  rw [Document.resolve?_eq_at?, hdescribes.outer _ hmem (h.not_isInner hrule),
    h.valueAt?_target hrule]
  intro place hway hne
  obtain ⟨members, hmembers, -⟩ := hdescribes.inner place (.inr ⟨_, hmem, hway, hne⟩)
  exact ⟨members, hmembers⟩

end IsReversible

/-- A projection by reversible rules and then by the same rules in the other
direction: both give a document, and every source holds again what it held at
first, or nothing if it held nothing. -/
theorem get_compile_swapped {rules : RuleSet} (hne : rules ≠ []) (h : rules.IsReversible)
    {maxDepth : Nat}
    (hdepth : ∀ rule ∈ rules, (Path.segments rule.source.path).length ≤ maxDepth ∧
      (Path.segments rule.target.path).length ≤ maxDepth) (document : Document) :
    ∃ forth back,
      Projection.get maxDepth document (rules.compile .standard) = .ok (some forth) ∧
      Projection.get maxDepth forth (rules.swapped.compile .standard) = .ok (some back) ∧
      ∀ rule ∈ rules, ∃ value,
        Projection.get maxDepth document rule.source.path = .ok value ∧
        Projection.get maxDepth back rule.source.path = .ok value := by
  have hswapped : rules.swapped ≠ [] := by simpa [RuleSet.swapped] using hne
  have hdepth' : ∀ rule ∈ rules.swapped,
      (Path.segments rule.target.path).length ≤ maxDepth := by
    intro rule hrule
    obtain ⟨original, horiginal, rfl⟩ := List.mem_map.1 hrule
    exact (hdepth original horiginal).1
  refine ⟨rules.outcome document, rules.swapped.outcome (rules.outcome document), ?_, ?_, ?_⟩
  · rw [get_compile_of_le h.isPlain fun rule hrule => (hdepth rule hrule).2, if_neg hne]
  · rw [get_compile_of_le h.swapped.isPlain hdepth', if_neg hswapped]
  · intro rule hrule
    have hplain := (h.plain rule hrule).1
    have hback := h.swapped.resolve?_outcome (List.mem_map_of_mem hrule) (rules.outcome document)
    refine ⟨document.resolve? rule.source.path, Projection.get_of_isPlain hplain _ _, ?_⟩
    rw [Projection.get_of_isPlain hplain]
    exact congrArg _ (hback.trans (h.resolve?_outcome hrule document))

/-- Rules that mix the keys of their paths, one of them into an array. -/
def interleaved : RuleSet :=
  [⟨⟨"list.1".toList, []⟩, ⟨"left.top".toList, []⟩⟩,
   ⟨⟨"tree.leaf".toList, []⟩, ⟨"right".toList, []⟩⟩,
   ⟨⟨"tree.root.key".toList, []⟩, ⟨"left.0.low".toList, []⟩⟩]

theorem get_compile_swapped_interleaved :
    interleaved ≠ [] ∧ interleaved.IsReversible ∧ ∃ forth back,
      Projection.get 3 (.object [("list".toList, .array [.null, .bool true]),
          ("tree".toList, .object [("root".toList, .string "none".toList)])])
        (interleaved.compile .standard) = .ok (some forth) ∧
      Projection.get 3 forth (interleaved.swapped.compile .standard) = .ok (some back) ∧
      ∀ rule ∈ interleaved, ∃ value,
        Projection.get 3 (.object [("list".toList, .array [.null, .bool true]),
          ("tree".toList, .object [("root".toList, .string "none".toList)])])
          rule.source.path = .ok value ∧
        Projection.get 3 back rule.source.path = .ok value := by
  have hne : interleaved ≠ [] := by decide
  have hreversible : interleaved.IsReversible :=
    ⟨by decide, by decide +kernel, by decide +kernel, by decide +kernel⟩
  exact ⟨hne, hreversible, get_compile_swapped hne hreversible (by decide +kernel) _⟩

end RuleSet

end Reshape
