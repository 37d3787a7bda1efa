import Reshape.Proofs.Candidates

/-!
# Rules that are narrowed to some functions

The rules about the functions that write some wanted paths can be taken out of a set of
rules.  They come in the order of the candidates then, and not in the order in which they
were.  If no candidate lies in the namespace of another one, a selection from them is the
same selection.  There are four groups of results on the way.

* Namespaces.  `Path.eq_of_closed_prefix`: namespaces that are apart have no path in common.
* Rearranging lists.  `distinct_flatMap_arranged`: the distinct elements of some lists stay
  in their order if each list is put into this order.
* The slice of the rules.  `RuleSet.candidates_slice` and `RuleSet.checked_slice` say that
  the candidates and their inputs are found in it again.
* `Session.select_restrictTo` is the result for a whole selection.
-/

namespace Reshape

/-! ## Namespaces -/

namespace Path

/-- The namespace that a text stands for: it ends with one dot. -/
def closed (space : Text) : Text :=
  Text.trimEnd (· == '.') space ++ ['.']

/-- The dots at the end make a difference to the namespace only if there are none. -/
theorem trimEnd_eq_or_closed_prefix (space : Text) :
    Text.trimEnd (· == '.') space = space ∨ closed space <+: space := by
  induction space using List.reverseRecOn with
  | nil => exact .inl rfl
  | append_singleton space c ih =>
    by_cases hc : (c == '.') = true
    · have htrim : Text.trimEnd (· == '.') (space ++ [c]) = Text.trimEnd (· == '.') space :=
        List.rdropWhile_concat_pos _ _ _ hc
      right
      rw [closed, htrim]
      rcases ih with hsame | hclosed
      · rw [hsame, beq_iff_eq.1 hc]
      · exact hclosed.trans (List.prefix_append _ _)
    · exact .inl (List.rdropWhile_concat_neg _ _ _ hc)

theorem closed_prefix_append_dot (space : Text) : closed space <+: space ++ ['.'] := by
  rcases trimEnd_eq_or_closed_prefix space with hsame | hclosed
  · rw [closed, hsame]
  · exact hclosed.trans (List.prefix_append _ _)

/-- Two texts of which neither lies in the namespace of the other one have namespaces
without a common path. -/
theorem eq_of_closed_prefix {space other : Text} {path : Path}
    (hspace : closed space <+: path) (hother : closed other <+: path)
    (hapart : space ≠ other → ¬ closed space <+: other ∧ ¬ closed other <+: space) :
    space = other := by
  by_contra hne
  obtain ⟨hleft, hright⟩ := hapart hne
  -- of two namespaces of one path, one goes on where the other ends
  have hnested : ∀ {space other : Text}, closed space <+: closed other → space ≠ other →
      closed space <+: other ∨ closed other <+: space := by
    intro space other hbegins hne
    rcases List.prefix_concat_iff.1 hbegins with heq | hinside
    · rcases trimEnd_eq_or_closed_prefix space with hsame | hclosed
      · rcases trimEnd_eq_or_closed_prefix other with hsame' | hclosed'
        · have htrim := List.append_cancel_right heq
          exact absurd (hsame.symm.trans (htrim.trans hsame')) hne
        · exact .inl (hbegins.trans hclosed')
      · right
        rw [closed, ← heq]
        exact hclosed
    · exact .inl (hinside.trans (List.rdropWhile_prefix _ _))
  rcases List.prefix_or_prefix_of_prefix hspace hother with hbegins | hbegins
  · exact (hnested hbegins hne).elim hleft hright
  · exact (hnested hbegins (Ne.symm hne)).elim hright hleft

/-- No text lies in the namespace of another one. -/
def SpacesApart (spaces : List Text) : Prop :=
  ∀ space ∈ spaces, ∀ other ∈ spaces, space ≠ other → ¬ closed space <+: other

instance (spaces : List Text) : Decidable (SpacesApart spaces) :=
  inferInstanceAs (Decidable (∀ space ∈ spaces, _))

theorem SpacesApart.eq {spaces : List Text} (h : SpacesApart spaces) {space other : Text}
    (hspace : space ∈ spaces) (hother : other ∈ spaces) {path : Path}
    (hpath : closed space <+: path) (hpath' : closed other <+: path) : space = other :=
  eq_of_closed_prefix hpath hpath' fun hne =>
    ⟨h space hspace other hother hne, h other hother space hspace (Ne.symm hne)⟩

/-- The namespace of the inputs of a candidate lies in the namespace of the candidate. -/
theorem closed_prefix_closed_join {space : Text} (hne : space ≠ [])
    (hhead : space.head? ≠ some '.') :
    closed space <+: closed (join [space, Direction.input.token]) := by
  have hstart : Text.trimStart (· == '.') space = space := by
    cases space with
    | nil => rfl
    | cons c space =>
      have hc : (c == '.') = false := beq_false_of_ne fun he => hhead (by simp [he])
      simp [Text.trimStart, hc]
  have hdots : trimDots space = Text.trimEnd (· == '.') space := by
    rw [trimDots, Text.trimBoth, hstart]
  have hjoin : join [space, Direction.input.token] = closed space ++ Direction.input.token := by
    have htoken : trimDots Direction.input.token = Direction.input.token := rfl
    have htokenEmpty : Direction.input.token.isEmpty = false := rfl
    simp [join, hne, htokenEmpty, hdots, htoken, ofSegments, Text.join, closed]
  have hplain : isPlain Direction.input.token = true := by decide
  rw [hjoin, closed.eq_1 (closed space ++ _), trimEnd_of_isPlain hplain, List.append_assoc]
  exact List.prefix_append _ _

end Path

/-! ## Rearranging lists -/

section

variable {α β : Type} [DecidableEq α]

/-- The elements of a list, put into an order. -/
def arranged (order xs : List α) : List α :=
  order.flatMap fun x => xs.filter (· = x)

theorem distinct_filter_eq (xs : List α) (x : α) :
    distinct (xs.filter (· = x)) = if x ∈ xs then [x] else [] := by
  induction xs using List.reverseRecOn with
  | nil => rfl
  | append_singleton xs y ih =>
    rw [List.filter_append]
    by_cases hy : y = x
    · subst hy
      by_cases hmem : y ∈ xs <;> simp [distinct_append_singleton, ih, hmem]
    · have hyx : ¬ x = y := fun he => hy he.symm
      simp [hy, hyx, ih]

theorem distinct_arranged {order : List α} (hnodup : order.Nodup) (xs : List α) :
    distinct (arranged order xs) = order.filter (· ∈ xs) := by
  induction order with
  | nil => rfl
  | cons x order ih =>
    rw [List.nodup_cons] at hnodup
    have hkeep : (order.filter (· ∈ xs)).filter (· ∉ xs.filter (· = x)) =
        order.filter (· ∈ xs) := by
      rw [List.filter_eq_self]
      intro y hy
      have hne : y ≠ x := fun he => hnodup.1 (he ▸ List.mem_of_mem_filter hy)
      simp [hne]
    have hcons : arranged (x :: order) xs = xs.filter (· = x) ++ arranged order xs := rfl
    rw [hcons, distinct_append, ih hnodup.2, hkeep, distinct_filter_eq]
    by_cases hx : x ∈ xs <;> simp [hx]

/-- Of an order that begins with the elements that are known and then has the new elements
of a list, the new elements of the list are the latter. -/
theorem filter_eq_of_prefix {order xs known : List α} (hnodup : order.Nodup)
    (h : distinct known ++ (distinct xs).filter (· ∉ known) <+: order) :
    (order.filter (· ∈ xs)).filter (· ∉ known) = (distinct xs).filter (· ∉ known) := by
  obtain ⟨more, rfl⟩ := h
  have hold : (distinct known).filter (fun x => decide (x ∉ known) && decide (x ∈ xs)) = [] := by
    rw [List.filter_eq_nil_iff]
    intro x hx
    simp [mem_distinct.1 hx]
  have hnew : ((distinct xs).filter (· ∉ known)).filter
      (fun x => decide (x ∉ known) && decide (x ∈ xs)) = (distinct xs).filter (· ∉ known) := by
    rw [List.filter_eq_self]
    intro x hx
    obtain ⟨hmem, hfree⟩ := List.mem_filter.1 hx
    simpa [mem_distinct.1 hmem] using hfree
  have hmore : more.filter (fun x => decide (x ∉ known) && decide (x ∈ xs)) = [] := by
    rw [List.filter_eq_nil_iff]
    intro x hx hboth
    -- a new element of the list stands before
    have hbefore : x ∈ distinct known ++ (distinct xs).filter (· ∉ known) := by
      simpa [mem_distinct, and_comm] using Or.inr hboth
    exact (List.nodup_append.1 hnodup).2.2 x hbefore x hx rfl
  rw [List.filter_filter, List.filter_append, List.filter_append, hold, hnew, hmore]
  simp

/-- Putting each of some lists into the order in which their elements occur first does not
change this order. -/
theorem distinct_flatMap_arranged {order : List α} (hnodup : order.Nodup)
    {lists : List (List α)} (h : distinct lists.flatten <+: order) :
    distinct (lists.flatMap (arranged order)) = distinct lists.flatten := by
  induction lists using List.reverseRecOn with
  | nil => rfl
  | append_singleton lists xs ih =>
    have hsplit : distinct (lists ++ [xs]).flatten =
        distinct lists.flatten ++ (distinct xs).filter (· ∉ lists.flatten) := by
      rw [List.flatten_append, distinct_append]
      simp
    rw [hsplit] at h
    have hbefore := ih ((List.prefix_append _ _).trans h)
    have hmem : ∀ x, x ∈ lists.flatMap (arranged order) ↔ x ∈ lists.flatten := by
      intro x
      rw [← mem_distinct, hbefore, mem_distinct]
    have hnew : (order.filter (· ∈ xs)).filter (· ∉ lists.flatMap (arranged order)) =
        (distinct xs).filter (· ∉ lists.flatten) := by
      simp only [hmem]
      exact filter_eq_of_prefix hnodup h
    rw [hsplit, List.flatMap_append, distinct_append, hbefore, List.flatMap_singleton,
      distinct_arranged hnodup, hnew]

/-- Of a list of parts, only one of which is not empty, this part is left. -/
theorem flatMap_eq_of_nodup {xs : List α} (hnodup : xs.Nodup) {x : α} (hx : x ∈ xs)
    {f : α → List β} (hf : ∀ y ∈ xs, y ≠ x → f y = []) : xs.flatMap f = f x := by
  induction xs with
  | nil => simp at hx
  | cons first xs ih =>
    rw [List.nodup_cons] at hnodup
    rw [List.flatMap_cons]
    by_cases hfirst : first = x
    · subst hfirst
      have hrest : xs.flatMap f = [] := by
        rw [List.flatMap_eq_nil_iff]
        intro y hy
        exact hf y (by simp [hy]) fun he => hnodup.1 (he ▸ hy)
      rw [hrest, List.append_nil]
    · have hmem : x ∈ xs := List.mem_of_ne_of_mem (Ne.symm hfirst) hx
      rw [hf first (by simp) hfirst, List.nil_append,
        ih hnodup.2 hmem fun y hy => hf y (by simp [hy])]

end

/-! ## The slice of the rules -/

/-- A rule lies in the namespace that is cut out of its source. -/
theorem Rule.closed_prefix_source {rule : Rule} {own : Text} (h : rule.space? = some own) :
    Path.closed own <+: rule.source.path := by
  obtain ⟨⟨before, rest⟩, hcut, rfl⟩ := Option.map_eq_some_iff.1 h
  refine (Path.closed_prefix_append_dot before).trans ?_
  rw [Text.eq_append_of_cutAt? hcut, Direction.marker]
  exact ⟨Direction.output.token ++ rest, by simp⟩

/-- A rule that writes a path lies in the namespace that is cut out of its source, and in no
other one. -/
theorem Rule.hasNamespace_iff_of_space? {spaces : List Text}
    (hspaces : Path.SpacesApart spaces) {rule : Rule} {own space : Text}
    (hrule : rule.space? = some own) (hown : own ∈ spaces) (hspace : space ∈ spaces) :
    rule.source.path.hasNamespace (Path.closed space) = true ↔ own = space := by
  have hinside := Rule.closed_prefix_source hrule
  rw [Path.hasNamespace, List.isPrefixOf_iff_prefix]
  constructor
  · exact fun hother => hspaces.eq hown hspace hinside hother
  · rintro rfl
    exact hinside

namespace RuleSet

/-- The rules in some namespaces, one namespace after the other. -/
def slice (rules : RuleSet) (spaces : List Text) : RuleSet :=
  spaces.flatMap fun space => rules.under space

section

variable {rules : RuleSet} (h : Apart Rule.same rules)

include h

theorem under_eq_filter (space : Text) :
    rules.under space =
      rules.filter fun rule => rule.source.path.hasNamespace (Path.closed space) :=
  collect_of_apart (apart_filter h _)

theorem mem_under_iff {rule : Rule} {space : Text} :
    rule ∈ rules.under space ↔ rule ∈ rules ∧ Path.closed space <+: rule.source.path := by
  rw [under_eq_filter h, List.mem_filter, Path.hasNamespace, List.isPrefixOf_iff_prefix]

theorem mem_of_mem_slice {spaces : List Text} {rule : Rule} (hrule : rule ∈ rules.slice spaces) :
    rule ∈ rules := by
  obtain ⟨space, -, hunder⟩ := List.mem_flatMap.1 hrule
  exact ((mem_under_iff h).1 hunder).1

variable {spaces : List Text} (hspaces : Path.SpacesApart spaces)

include hspaces

theorem apart_slice (hnodup : spaces.Nodup) : Apart Rule.same (rules.slice spaces) := by
  rw [Apart, slice, List.pairwise_flatMap]
  constructor
  · intro space _
    rw [under_eq_filter h]
    exact apart_filter h _
  · refine List.Pairwise.imp_of_mem ?_ hnodup
    intro space other hspace hother hne left hleft right hright
    rw [mem_under_iff h] at hleft hright
    by_contra hsame
    obtain rfl : left = right :=
      eq_of_apart Rule.same_iff h hleft.1 hright.1 (by simpa using hsame)
    exact hne (hspaces.eq hspace hother hleft.2 hright.2)

/-- The slice has the writers of a path, in the order of the namespaces. -/
theorem writerSpaces_slice {path : Path}
    (hpath : ∀ space ∈ rules.writerSpaces path, space ∈ spaces) :
    (rules.slice spaces).writerSpaces path = arranged spaces (rules.writerSpaces path) := by
  rw [writerSpaces, slice, List.filter_flatMap, List.filterMap_flatMap, arranged]
  refine List.flatMap_congr fun space hspace => ?_
  rw [under_eq_filter h, List.filter_comm, writerSpaces, List.filter_filterMap,
    List.filterMap_filter]
  refine List.filterMap_congr fun rule hrule => ?_
  cases hown : rule.space? with
  | none => simp
  | some own =>
    have hmem : own ∈ spaces := hpath own (List.mem_filterMap.2 ⟨rule, hrule, hown⟩)
    have hiff := Rule.hasNamespace_iff_of_space? hspaces hown hmem hspace
    by_cases heq : own = space
    · simp [hiff.2 heq, heq, Option.filter]
    · have hfalse : rule.source.path.hasNamespace (Path.closed space) = false := by
        simpa using mt hiff.1 heq
      simp [hfalse, heq, Option.filter]

end

variable {rules : RuleSet} {wanted : List Path}

theorem nodup_candidates (rules : RuleSet) (wanted : List Path) :
    (rules.candidates wanted).Nodup :=
  nodup_distinct _

theorem mem_candidates_of_mem_writerSpaces (h : Apart Rule.same rules) {path : Path}
    (hpath : path ∈ wanted) {space : Text} (hspace : space ∈ rules.writerSpaces path) :
    space ∈ rules.candidates wanted := by
  rw [candidates_eq h, mem_distinct, List.mem_flatMap]
  exact ⟨path, hpath, hspace⟩

/-- The candidates are found again in the slice of the rules that belongs to them. -/
theorem candidates_slice (h : Apart Rule.same rules)
    (hspaces : Path.SpacesApart (rules.candidates wanted)) :
    (rules.slice (rules.candidates wanted)).candidates wanted = rules.candidates wanted := by
  have hslice : wanted.flatMap (rules.slice (rules.candidates wanted)).writerSpaces =
      (wanted.map rules.writerSpaces).flatMap (arranged (rules.candidates wanted)) := by
    rw [List.flatMap_map]
    exact List.flatMap_congr fun path hpath => writerSpaces_slice h hspaces fun space hspace =>
      mem_candidates_of_mem_writerSpaces h hpath hspace
  have horder : distinct (wanted.map rules.writerSpaces).flatten = rules.candidates wanted := by
    rw [candidates_eq h, List.flatMap]
  rw [candidates_eq (apart_slice h hspaces (nodup_candidates rules wanted)), hslice,
    distinct_flatMap_arranged (nodup_candidates rules wanted) (by rw [horder]), horder]

/-- The inputs of a candidate are found again in the slice. -/
theorem checked_slice {spaces : List Text} (h : Apart Rule.same rules)
    (hspaces : Path.SpacesApart spaces) (hnodup : spaces.Nodup) {space : Text}
    (hspace : space ∈ spaces) (hne : space ≠ []) (hhead : space.head? ≠ some '.') :
    (rules.slice spaces).checked space = rules.checked space := by
  have hinside := Path.closed_prefix_closed_join hne hhead
  rw [checked, under_eq_filter (apart_slice h hspaces hnodup), checked, under_eq_filter h, slice,
    List.filter_flatMap, flatMap_eq_of_nodup hnodup hspace]
  · -- in the namespace itself nothing else is asked
    rw [under_eq_filter h, List.filter_filter]
    refine List.filter_congr fun rule _ => ?_
    rw [Bool.eq_iff_iff, Bool.and_eq_true_iff, Path.hasNamespace, Path.hasNamespace,
      List.isPrefixOf_iff_prefix, List.isPrefixOf_iff_prefix]
    exact ⟨And.left, fun hchecked => ⟨hchecked, hinside.trans hchecked⟩⟩
  · intro other hother hdiffer
    rw [List.filter_eq_nil_iff]
    intro rule hrule hchecked
    rw [Path.hasNamespace, List.isPrefixOf_iff_prefix] at hchecked
    exact hdiffer (hspaces.eq hother hspace ((mem_under_iff h).1 hrule).2
      (hinside.trans hchecked))

/-- A candidate begins like the namespace of functions. -/
theorem head?_of_mem_candidates {space : Text}
    (hspace : space ∈ rules.aboutFunctions.candidates wanted) : space.head? = some 'f' := by
  obtain ⟨rule, hrule, -, -, rest, hcut⟩ := exists_of_mem_candidates hspace
  obtain ⟨more, hmore⟩ := (mem_aboutFunctions hrule).2
  have hhead := congrArg List.head? (hmore.trans (Text.eq_append_of_cutAt? hcut))
  cases space with
  | nil => exact absurd (show some 'f' = some '.' from hhead) (by decide)
  | cons c space => exact (show some 'f' = some c from hhead).symm

theorem aboutFunctions_of_forall_mem {list : RuleSet} (hlist : Apart Rule.same list)
    (hmem : ∀ rule ∈ list, rule ∈ rules.aboutFunctions) : list.aboutFunctions = list := by
  have hall : list.filter (fun rule => rule.source.path.hasNamespace Path.functions) = list := by
    rw [List.filter_eq_self]
    intro rule hrule
    exact List.isPrefixOf_iff_prefix.2 (mem_aboutFunctions (hmem rule hrule)).2
  rw [aboutFunctions_eq_collected, hall]
  exact collect_of_apart hlist

theorem aboutFunctions_slice (rules : RuleSet) {spaces : List Text}
    (hspaces : Path.SpacesApart spaces) (hnodup : spaces.Nodup) :
    (rules.aboutFunctions.slice spaces).aboutFunctions = rules.aboutFunctions.slice spaces := by
  have h := apart_aboutFunctions rules
  exact aboutFunctions_of_forall_mem (apart_slice h hspaces hnodup) fun _ => mem_of_mem_slice h

end RuleSet

/-! ## Selecting from the slice -/

namespace Session

theorem firstReady_congr (settings : Settings) (document : Document) {rules others : RuleSet}
    {candidates : List Text}
    (h : ∀ candidate ∈ candidates, rules.checked candidate = others.checked candidate) :
    firstReady settings rules document candidates =
      firstReady settings others document candidates := by
  induction candidates with
  | nil => rfl
  | cons candidate rest ih =>
    have hfirst : rules.under (Path.join [candidate, Direction.input.token]) =
        others.under (Path.join [candidate, Direction.input.token]) := h candidate (by simp)
    rw [firstReady, firstReady, hfirst, ih fun other hother => h other (by simp [hother])]

/-- Selecting from the rules about the functions that write the targets is selecting from
all rules, if no candidate lies in the namespace of another one. -/
theorem select_restrictTo (rules working : RuleSet)
    (h : Path.SpacesApart (rules.aboutFunctions.candidates working.targets))
    (settings : Settings) (document : Document) :
    select settings (rules.restrictTo working) document working.targets =
      select settings rules document working.targets := by
  have hnodup := RuleSet.nodup_candidates rules.aboutFunctions working.targets
  have hapart := RuleSet.apart_aboutFunctions rules
  have hslice : rules.restrictTo working =
      rules.aboutFunctions.slice (rules.aboutFunctions.candidates working.targets) :=
    collect_of_apart (RuleSet.apart_slice hapart h hnodup)
  have hready := firstReady_congr settings document fun candidate hcandidate =>
    RuleSet.checked_slice hapart h hnodup hcandidate
      (by rintro rfl; simpa using RuleSet.head?_of_mem_candidates hcandidate)
      (by rw [RuleSet.head?_of_mem_candidates hcandidate]; decide)
  simp only [select]
  rw [hslice, RuleSet.aboutFunctions_slice rules h hnodup, RuleSet.candidates_slice hapart h,
    hready]

/-- Three functions, and a path that is wanted of the second one before the first one. -/
def mixedRules : RuleSet :=
  [⟨⟨"func.b.output.x".toList, []⟩, ⟨"t".toList, []⟩⟩,
   ⟨⟨"func.a.output.x".toList, []⟩, ⟨"s".toList, []⟩⟩,
   ⟨⟨"func.c.output.x".toList, []⟩, ⟨"r".toList, []⟩⟩,
   ⟨⟨"func.a.input.y".toList, []⟩, ⟨"n".toList, []⟩⟩]

def workingRules : RuleSet :=
  [⟨⟨"u".toList, []⟩, ⟨"s".toList, []⟩⟩, ⟨⟨"v".toList, []⟩, ⟨"t".toList, []⟩⟩]

theorem select_restrictTo_mixed :
    (mixedRules.restrictTo workingRules).map (·.source.path) =
      ["func.a.output.x".toList, "func.a.input.y".toList, "func.b.output.x".toList] ∧
    ∀ settings document,
      select settings (mixedRules.restrictTo workingRules) document workingRules.targets =
        select settings mixedRules document workingRules.targets :=
  ⟨by decide +kernel, select_restrictTo mixedRules workingRules (by decide +kernel)⟩

/-- A function whose name ends with a dot, a function in the namespace that this stands for,
and another function between them. -/
def dottedRules : RuleSet :=
  [⟨⟨"func.a.input.x".toList, []⟩, ⟨"gone".toList, []⟩⟩,
   ⟨⟨"func.a..output.x".toList, []⟩, ⟨"s".toList, []⟩⟩,
   ⟨⟨"func.b.output.x".toList, []⟩, ⟨"t".toList, []⟩⟩,
   ⟨⟨"func.a.c.output.x".toList, []⟩, ⟨"t".toList, []⟩⟩]

/-- It is not enough that no candidate goes on behind another one and a dot, since the dots
at the end of a candidate do not count. -/
theorem select_restrictTo_dotted :
    (∀ space ∈ dottedRules.aboutFunctions.candidates workingRules.targets,
      ∀ other ∈ dottedRules.aboutFunctions.candidates workingRules.targets,
        space ≠ other → ¬ space ++ ['.'] <+: other) ∧
    (select ⟨.standard, 64⟩ dottedRules (.object []) workingRules.targets).run.1 =
      .ok (some "b".toList) ∧
    (select ⟨.standard, 64⟩ (dottedRules.restrictTo workingRules) (.object [])
      workingRules.targets).run.1 = .ok (some "a.c".toList) := by
  have hgone : RuleSet.missing ⟨.standard, 64⟩ (.object [])
      [⟨⟨"func.a.input.x".toList, []⟩, ⟨"gone".toList, []⟩⟩] = .ok (some "gone".toList) := by
    rw [RuleSet.missing_of_isPlain (by decide)]
    rfl
  refine ⟨by decide +kernel, ?_, ?_⟩
  · have hcandidates : dottedRules.aboutFunctions.candidates workingRules.targets =
        ["func.a.".toList, "func.b".toList, "func.a.c".toList] := by decide +kernel
    have hfirst : dottedRules.aboutFunctions.checked "func.a.".toList =
        [⟨⟨"func.a.input.x".toList, []⟩, ⟨"gone".toList, []⟩⟩] := by decide +kernel
    have hsecond : dottedRules.aboutFunctions.checked "func.b".toList = [] := by decide +kernel
    refine select_eq_some_iff.2 ⟨"func.b".toList, by decide, ?_⟩
    rw [hcandidates, RuleSet.ready, hfirst, hgone, RuleSet.ready, hsecond]
    rfl
  · have hcandidates :
        (dottedRules.restrictTo workingRules).aboutFunctions.candidates workingRules.targets =
          ["func.a.".toList, "func.a.c".toList, "func.b".toList] := by decide +kernel
    have hfirst : (dottedRules.restrictTo workingRules).aboutFunctions.checked "func.a.".toList =
        [⟨⟨"func.a.input.x".toList, []⟩, ⟨"gone".toList, []⟩⟩] := by decide +kernel
    have hsecond : (dottedRules.restrictTo workingRules).aboutFunctions.checked
        "func.a.c".toList = [] := by decide +kernel
    refine select_eq_some_iff.2 ⟨"func.a.c".toList, by decide, ?_⟩
    rw [hcandidates, RuleSet.ready, hfirst, hgone, RuleSet.ready, hsecond]
    rfl

end Session

end Reshape
