import Reshape.Proofs.Narrowing
import Reshape.Proofs.Trimming

/-!
# Narrowing rules again

The rules about the functions that write some paths come in the order of the candidates.
The candidates may be found in another order among them, if a candidate lies in the
namespace of another one.  Narrowing them again changes nothing nevertheless.

The argument is about what is found first.  `Path.IsOpen` are the properties of namespaces
that pass on to every namespace around.  The first candidate with such a property is found
first again among the narrowed rules.  To have a certain rule inside is such a property, and
it decides which rule comes first.

* `eq_of_find?_eq`: a list without repetitions is known by what is found first in it.
* `Rule.closed_prefix_of_space?`: a candidate that has a writer inside has the whole
  namespace of the writer inside.
* `RuleSet.find?_candidates_narrowed` and `RuleSet.restrictTo_restrictTo`.
-/

namespace Reshape

/-! ## What is found first -/

section

variable {α : Type} [DecidableEq α]

theorem find?_distinct (p : α → Bool) (xs : List α) : (distinct xs).find? p = xs.find? p := by
  induction xs using List.reverseRecOn with
  | nil => rfl
  | append_singleton xs x ih =>
    rw [distinct_append_singleton, List.find?_append, ← ih]
    split
    · rename_i hx
      cases hfind : (distinct xs).find? p with
      | some y => rfl
      | none =>
        have hpx : p x = false := by simpa using List.find?_eq_none.1 hfind x hx
        simp [hpx]
    · rw [List.find?_append]

/-- A list without repetitions is known by what is found first in it. -/
theorem eq_of_find?_eq {xs ys : List α} (hxs : xs.Nodup) (hys : ys.Nodup)
    (h : ∀ p, xs.find? p = ys.find? p) : xs = ys := by
  induction xs generalizing ys with
  | nil =>
    have hhead := h fun _ => true
    cases ys with
    | nil => rfl
    | cons y ys => simp at hhead
  | cons x xs ih =>
    have hhead := h fun _ => true
    cases ys with
    | nil => simp at hhead
    | cons y ys =>
      obtain rfl : x = y := by simpa using hhead
      rw [List.nodup_cons] at hxs hys
      -- behind the first element, it is passed over by asking for another one
      have hpast : ∀ (zs : List α) (p : α → Bool), x ∉ zs →
          (x :: zs).find? (fun z => p z && z ≠ x) = zs.find? p := by
        intro zs p hx
        rw [List.find?_cons_of_neg (by simp)]
        refine List.find?_congr fun z hz => ?_
        have hne : z ≠ x := fun he => hx (he ▸ hz)
        simp [hne]
      rw [ih hxs.2 hys.2 fun p => ?_]
      rw [← hpast xs p hxs.1, h, hpast ys p hys.1]

end

/-- What is found first is found first again if more is asked for that it has. -/
theorem find?_and_eq_some {α : Type} {xs : List α} {p q : α → Bool} {x : α}
    (hfind : xs.find? q = some x) (hp : p x = true) :
    xs.find? (fun y => p y && q y) = some x := by
  obtain ⟨hq, before, behind, rfl, hbefore⟩ := List.find?_eq_some_iff_append.1 hfind
  refine List.find?_eq_some_iff_append.2 ⟨by simp [hp, hq], before, behind, rfl, ?_⟩
  intro y hy
  have hqy : q y = false := by simpa using hbefore y hy
  simp [hqy]

/-! ## The namespace of a writer -/

/-- The piece is found nowhere before the place where a text is cut. -/
theorem Text.length_le_of_cutAt? {piece text before rest : Text} (hpiece : piece ≠ [])
    (h : cutAt? piece text = some (before, rest)) {start more : Text}
    (htext : text = start ++ piece ++ more) : before.length ≤ start.length := by
  induction text generalizing before start with
  | nil => simp [hpiece] at htext
  | cons c text ih =>
    rw [cutAt?] at h
    split at h
    · obtain ⟨rfl, -⟩ : [] = before ∧ _ = rest := by simpa using h
      simp
    · rename_i hafter
      obtain ⟨⟨head, tail⟩, hcut, hpair⟩ := Option.map_eq_some_iff.1 h
      obtain ⟨rfl, rfl⟩ : c :: head = before ∧ tail = rest := by simpa using hpair
      cases start with
      | nil =>
        rw [List.nil_append] at htext
        rw [htext, after?_append] at hafter
        simp at hafter
      | cons d start =>
        obtain ⟨-, htext⟩ : c = d ∧ text = start ++ piece ++ more := by simpa using htext
        simpa using ih hcut htext

namespace Path

/-- A namespace around a text and a dot is around the namespace of the text. -/
theorem closed_prefix_closed {space own : Text} (h : closed space <+: own ++ ['.']) :
    closed space <+: closed own := by
  induction own using List.reverseRecOn with
  | nil => exact h
  | append_singleton own c ih =>
    by_cases hc : (c == '.') = true
    · have htrim : Text.trimEnd (· == '.') (own ++ [c]) = Text.trimEnd (· == '.') own :=
        List.rdropWhile_concat_pos _ _ _ hc
      rw [closed.eq_1 (own ++ [c]), htrim]
      rcases List.prefix_concat_iff.1 h with heq | hinside
      · -- nothing that has been trimmed ends with a dot
        have hlast : c ∈ (Text.trimEnd (· == '.') space).getLast? := by
          simp [List.append_cancel_right heq]
        rw [Text.getLast?_trimEnd c hlast] at hc
        simp at hc
      · rw [beq_iff_eq.1 hc] at hinside
        exact ih hinside
    · have htrim : Text.trimEnd (· == '.') (own ++ [c]) = own ++ [c] :=
        List.rdropWhile_concat_neg _ _ _ hc
      rwa [closed.eq_1 (own ++ [c]), htrim]

/-- A property of namespaces that passes on to every namespace around. -/
def IsOpen (p : Text → Bool) : Prop :=
  ∀ space outer, closed outer <+: closed space → p space = true → p outer = true

end Path

/-- A candidate that has a writer inside has the whole namespace of the writer inside. -/
theorem Rule.closed_prefix_of_space? {rule other : Rule} {own space : Text}
    (hown : rule.space? = some own) (hspace : other.space? = some space)
    (h : Path.closed space <+: rule.source.path) : Path.closed space <+: Path.closed own := by
  apply Path.closed_prefix_closed
  obtain ⟨⟨own, rest⟩, hcut, rfl⟩ := Option.map_eq_some_iff.1 hown
  obtain ⟨⟨space, rest'⟩, hcut', rfl⟩ := Option.map_eq_some_iff.1 hspace
  have hsource : rule.source.path = own ++ ['.'] ++ (Direction.output.token ++ rest) := by
    rw [Text.eq_append_of_cutAt? hcut, Direction.marker]
    simp
  rw [hsource] at h
  rcases List.prefix_or_prefix_of_prefix h (List.prefix_append _ _) with hinside | houtside
  · exact hinside
  rcases List.prefix_concat_iff.1 houtside with heq | ⟨more, hmore⟩
  · rw [heq]
    exact List.prefix_rfl
  -- the candidate would go on with the marker behind the name of the writer
  have htoken : Direction.output.token <+: more := by
    rw [Path.closed, ← hmore, List.append_assoc, List.prefix_append_right_inj] at h
    obtain ⟨tail, htail⟩ := h
    have hdotted : Direction.output.token <+: more ++ '.' :: tail := by
      rw [List.append_cons, htail]
      exact List.prefix_append _ _
    exact prefix_of_prefix_append_cons (by decide) hdotted
  obtain ⟨tail, rfl⟩ := htoken
  obtain ⟨dots, hdots⟩ := Text.isPrefix_trimEnd (· == '.') space
  have hmarker : other.source.path =
      own ++ Direction.output.marker ++ (tail ++ dots ++ Direction.output.marker ++ rest') := by
    rw [Text.eq_append_of_cutAt? hcut', ← hdots, ← hmore, Direction.marker]
    simp
  have hshort := Text.length_le_of_cutAt? (by simp [Direction.marker]) hcut' hmarker
  have hlong : own.length < space.length := by
    rw [← hdots, ← hmore]
    simp only [List.length_append, List.length_singleton]
    omega
  omega

/-! ## Rules in the namespaces of the candidates -/

/-- Whether the rule lies in the namespace that a text stands for. -/
def Rule.isInside (space : Text) (rule : Rule) : Bool :=
  rule.source.path.hasNamespace (Path.closed space)

theorem Rule.isInside_iff {space : Text} {rule : Rule} :
    rule.isInside space = true ↔ Path.closed space <+: rule.source.path :=
  List.isPrefixOf_iff_prefix

/-- Whether the rule writes the path and its namespace has the property. -/
def Rule.writesFrom (p : Text → Bool) (path : Path) (rule : Rule) : Bool :=
  rule.writes path && rule.space?.any p

theorem Rule.of_writesFrom {p : Text → Bool} {path : Path} {rule : Rule}
    (h : rule.writesFrom p path = true) : ∃ own, rule.space? = some own ∧ p own = true := by
  have hany := (Bool.and_eq_true_iff.1 h).2
  cases hspace : rule.space? with
  | none => simp [hspace] at hany
  | some own => exact ⟨own, rfl, by simpa [hspace] using hany⟩

namespace RuleSet

/-- The rules in the namespaces of the candidates, in the order of the candidates. -/
def narrowed (rules : RuleSet) (wanted : List Path) : RuleSet :=
  distinct (rules.slice (rules.candidates wanted))

/-- Whether a rule with the property lies in the namespace. -/
def holdsInside (rules : RuleSet) (p : Rule → Bool) (space : Text) : Bool :=
  (rules.find? fun rule => rule.isInside space && p rule).isSome

/-- A namespace has inside what a namespace in it has inside. -/
theorem isOpen_holdsInside (rules : RuleSet) (p : Rule → Bool) :
    Path.IsOpen (rules.holdsInside p) := by
  intro space outer hwithin hspace
  obtain ⟨rule, hrule, hboth⟩ := List.find?_isSome.1 hspace
  obtain ⟨hinside, hp⟩ := Bool.and_eq_true_iff.1 hboth
  have houter := Rule.isInside_iff.2 (hwithin.trans (Rule.isInside_iff.1 hinside))
  exact List.find?_isSome.2 ⟨rule, hrule, by simp [houter, hp]⟩

theorem exists_space?_of_mem_candidates {rules : RuleSet} {wanted : List Path} {space : Text}
    (h : space ∈ rules.candidates wanted) : ∃ rule : Rule, rule.space? = some space := by
  obtain ⟨rule, -, -, -, rest, hcut⟩ := exists_of_mem_candidates h
  exact ⟨rule, by rw [Rule.space?, hcut]; rfl⟩

section

variable {rules : RuleSet} (h : Apart Rule.same rules)

include h

theorem collected_slice (wanted : List Path) :
    collected (rules.slice (rules.candidates wanted)) = rules.narrowed wanted :=
  collected_of_forall_mem h fun _ => mem_of_mem_slice h

theorem apart_narrowed (wanted : List Path) : Apart Rule.same (rules.narrowed wanted) := by
  rw [← collected_slice h]
  exact apart_collected _

theorem find?_narrowed_eq_none {p : Rule → Bool} (hnone : rules.find? p = none)
    (wanted : List Path) : (rules.narrowed wanted).find? p = none := by
  rw [List.find?_eq_none] at hnone ⊢
  exact fun rule hrule => hnone rule (mem_of_mem_slice h (mem_distinct.1 hrule))

/-- The first narrowed rule with a property lies in the first candidate that has such a rule
inside. -/
theorem find?_narrowed (wanted : List Path) (p : Rule → Bool) :
    (rules.narrowed wanted).find? p =
      (rules.candidates wanted).findSome? fun space =>
        rules.find? fun rule => rule.isInside space && p rule := by
  rw [narrowed, find?_distinct, slice, List.find?_flatMap]
  congr 1
  funext space
  rw [under_eq_filter h, List.find?_filter]
  simp [Rule.isInside]

/-- The first candidate with a property comes from the first path that has a writer in such a
namespace, and from the first of these writers. -/
theorem find?_candidates_eq_some_iff {wanted : List Path} {p : Text → Bool} {space : Text} :
    (rules.candidates wanted).find? p = some space ↔
      ∃ before path behind writer, wanted = before ++ path :: behind ∧
        (∀ other ∈ before, rules.find? (Rule.writesFrom p other) = none) ∧
        rules.find? (Rule.writesFrom p path) = some writer ∧ writer.space? = some space := by
  have hfind : ∀ path, (rules.writerSpaces path).find? p =
      (rules.find? (Rule.writesFrom p path)).bind Rule.space? := by
    intro path
    rw [writerSpaces, List.find?_filterMap, List.find?_filter]
    simp only [Bool.decide_and, Bool.decide_eq_true]
    rfl
  have hnone : ∀ path, (rules.writerSpaces path).find? p = none ↔
      rules.find? (Rule.writesFrom p path) = none := by
    intro path
    rw [hfind]
    cases hfound : rules.find? (Rule.writesFrom p path) with
    | none => simp
    | some rule =>
      obtain ⟨own, hown, -⟩ := Rule.of_writesFrom (List.find?_some hfound)
      simp [hown]
  rw [candidates_eq h, find?_distinct, List.find?_flatMap, List.findSome?_eq_some_iff]
  constructor
  · rintro ⟨before, path, behind, hwanted, hspace, hbefore⟩
    rw [hfind, Option.bind_eq_some_iff] at hspace
    obtain ⟨writer, hwriter, hown⟩ := hspace
    exact ⟨before, path, behind, writer, hwanted,
      fun other hother => (hnone other).1 (hbefore other hother), hwriter, hown⟩
  · rintro ⟨before, path, behind, writer, hwanted, hbefore, hwriter, hown⟩
    refine ⟨before, path, behind, hwanted, ?_, fun other hother => ?_⟩
    · rw [hfind, hwriter, Option.bind_some, hown]
    · exact (hnone other).2 (hbefore other hother)

/-- The first candidate with an open property is found first again among the narrowed
rules. -/
theorem find?_candidates_narrowed {wanted : List Path} {p : Text → Bool} (hopen : Path.IsOpen p)
    {space : Text} (hspace : (rules.candidates wanted).find? p = some space) :
    ((rules.narrowed wanted).candidates wanted).find? p = some space := by
  obtain ⟨before, path, behind, writer, hwanted, hbefore, hwriter, hown⟩ :=
    (find?_candidates_eq_some_iff h).1 hspace
  obtain ⟨-, earlier, later, hcandidates, hearlier⟩ := List.find?_eq_some_iff_append.1 hspace
  have hfound : (rules.narrowed wanted).find? (Rule.writesFrom p path) = some writer := by
    rw [find?_narrowed h, List.findSome?_eq_some_iff]
    refine ⟨earlier, space, later, hcandidates, ?_, ?_⟩
    · exact find?_and_eq_some hwriter (Rule.isInside_iff.2 (Rule.closed_prefix_source hown))
    · -- an earlier candidate with such a writer inside would have the property
      intro outer houter
      rw [List.find?_eq_none]
      intro rule _ hrule
      obtain ⟨hinside, hwrites⟩ := Bool.and_eq_true_iff.1 hrule
      obtain ⟨own, hown, hp⟩ := Rule.of_writesFrom hwrites
      obtain ⟨other, hother⟩ := exists_space?_of_mem_candidates
        (show outer ∈ rules.candidates wanted by rw [hcandidates]; simp [houter])
      have hwithin := Rule.closed_prefix_of_space? hown hother (Rule.isInside_iff.1 hinside)
      simpa [hopen own outer hwithin hp] using hearlier outer houter
  refine (find?_candidates_eq_some_iff (apart_narrowed h wanted)).2
    ⟨before, path, behind, writer, hwanted, ?_, hfound, hown⟩
  exact fun other hother => find?_narrowed_eq_none h (hbefore other hother) wanted

/-- Narrowing rules again changes nothing. -/
theorem narrowed_narrowed (wanted : List Path) :
    (rules.narrowed wanted).narrowed wanted = rules.narrowed wanted := by
  have hnarrowed := apart_narrowed h wanted
  refine eq_of_find?_eq (nodup_distinct _) (nodup_distinct _) fun p => ?_
  cases hfirst : (rules.narrowed wanted).find? p with
  | none => exact find?_narrowed_eq_none hnarrowed hfirst wanted
  | some rule =>
    have hcandidate := hfirst
    rw [find?_narrowed h, List.findSome?_eq_some_iff] at hcandidate
    obtain ⟨earlier, space, later, hcandidates, hrule, hearlier⟩ := hcandidate
    have hspace : (rules.candidates wanted).find? (rules.holdsInside p) = some space := by
      rw [List.find?_eq_some_iff_append]
      refine ⟨by simp [holdsInside, hrule], earlier, later, hcandidates, ?_⟩
      intro outer houter
      simp [holdsInside, hearlier outer houter]
    have hagain := find?_candidates_narrowed h (isOpen_holdsInside rules p) hspace
    obtain ⟨-, earlier', later', hcandidates', hearlier'⟩ :=
      List.find?_eq_some_iff_append.1 hagain
    have hinside := List.find?_some hrule
    rw [find?_narrowed hnarrowed, List.findSome?_eq_some_iff]
    refine ⟨earlier', space, later', hcandidates', ?_, ?_⟩
    · exact find?_and_eq_some hfirst (Bool.and_eq_true_iff.1 hinside).1
    · intro outer houter
      refine find?_narrowed_eq_none h ?_ wanted
      simpa [holdsInside] using hearlier' outer houter

end

theorem aboutFunctions_narrowed (rules : RuleSet) (wanted : List Path) :
    (rules.aboutFunctions.narrowed wanted).aboutFunctions =
      rules.aboutFunctions.narrowed wanted := by
  have h := apart_aboutFunctions rules
  exact aboutFunctions_of_forall_mem (apart_narrowed h wanted) fun _ hrule =>
    mem_of_mem_slice h (mem_distinct.1 hrule)

/-- Narrowing rules to the functions that write the targets of some other rules is done once
and for all: doing it again gives the same rules in the same order, also if the functions lie
in the namespaces of each other. -/
theorem restrictTo_restrictTo (rules working : RuleSet) :
    (rules.restrictTo working).restrictTo working = rules.restrictTo working := by
  have hrestrict : ∀ rules : RuleSet, rules.restrictTo working =
      rules.aboutFunctions.narrowed working.targets := fun rules =>
    collected_slice (apart_aboutFunctions rules) working.targets
  rw [hrestrict (rules.restrictTo working), hrestrict rules, aboutFunctions_narrowed,
    narrowed_narrowed (apart_aboutFunctions rules)]

-- the candidates do change places, if one of them lies in the namespace of another one
example :
    let rules : RuleSet :=
      [⟨⟨"func.m.output.x".toList, []⟩, ⟨"p".toList, []⟩⟩,
       ⟨⟨"func.n.output.x".toList, []⟩, ⟨"q".toList, []⟩⟩,
       ⟨⟨"func.m.k.output.x".toList, []⟩, ⟨"q".toList, []⟩⟩]
    let working : RuleSet :=
      [⟨⟨"u".toList, []⟩, ⟨"p".toList, []⟩⟩, ⟨⟨"v".toList, []⟩, ⟨"q".toList, []⟩⟩]
    rules.candidates working.targets =
      ["func.m".toList, "func.n".toList, "func.m.k".toList] ∧
    (rules.restrictTo working).candidates working.targets =
      ["func.m".toList, "func.m.k".toList, "func.n".toList] := by decide +kernel

end RuleSet

end Reshape
