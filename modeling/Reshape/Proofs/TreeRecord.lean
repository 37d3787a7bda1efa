import Reshape.Proofs.TargetTree

/-!
# What a target tree records of its inserts

Inserts may meet in every way: a branch takes the place of a leaf, a leaf comes too late for
a branch, and leaves are inserted twice.  The tree that comes of it depends on little.  A
place is a branch if some key list goes on behind it and a leaf if one ends there, with the
source that was inserted first, and the keys of a level stand in the order in which they were
first passed through, whatever became of the insert that passed.

* `TargetTree.Records` says this of a tree and some inserts.
* `TargetTree.records_ofInserts`: the tree of the inserts records them.
* `TargetTree.Records.unique`: no other tree does.  Two trees are equal if they have the same
  labels at all places (`Slot.eq_of_label_eq`), and `Records` determines the labels.
-/

namespace Reshape

/-! ## Order of first mention -/

/-- The number of key lists before the first one that passes through a place. -/
def firstThrough (lists : List (List Text)) (place : List Text) : Nat :=
  lists.findIdx (place <+: ·)

theorem firstThrough_lt_length {lists : List (List Text)} {place : List Text} :
    firstThrough lists place < lists.length ↔ ∃ keys ∈ lists, place <+: keys := by
  simp [firstThrough, List.findIdx_lt_length]

/-- A list behind the others is not the first if one of them passed through the place. -/
theorem firstThrough_append {lists : List (List Text)} {place : List Text}
    (h : ∃ keys ∈ lists, place <+: keys) (more : List (List Text)) :
    firstThrough (lists ++ more) place = firstThrough lists place := by
  rw [firstThrough, List.findIdx_append]
  exact if_pos (firstThrough_lt_length.2 h)

theorem length_le_firstThrough_append {lists : List (List Text)} {place : List Text}
    (h : ¬ ∃ keys ∈ lists, place <+: keys) (more : List (List Text)) :
    lists.length ≤ firstThrough (lists ++ more) place := by
  have hlists : ¬ lists.findIdx (place <+: ·) < lists.length :=
    fun hlt => h (firstThrough_lt_length.1 hlt)
  rw [firstThrough, List.findIdx_append, if_neg hlists]
  omega

/-- One key behind a place is passed through before another one. -/
def PassedBefore (lists : List (List Text)) (place : List Text) (first second : Text) : Prop :=
  firstThrough lists (place ++ [first]) < firstThrough lists (place ++ [second])

instance (lists : List (List Text)) (place : List Text) :
    Std.Antisymm (PassedBefore lists place) :=
  ⟨fun _ _ hlt hgt => absurd hgt (Nat.lt_asymm hlt)⟩

instance (lists : List (List Text)) (place : List Text) : Std.Irrefl (PassedBefore lists place) :=
  ⟨fun _ => Nat.lt_irrefl _⟩

/-- The keys behind a place stand in the order in which they are first passed through. -/
theorem pairwise_nextKeys (lists : List (List Text)) (place : List Text) :
    (nextKeys lists place).Pairwise (PassedBefore lists place) := by
  induction lists using List.reverseRecOn with
  | nil => exact List.Pairwise.nil
  | append_singleton lists keys ih =>
    -- the keys that are there already keep their numbers
    have hold : (nextKeys lists place).Pairwise (PassedBefore (lists ++ [keys]) place) := by
      refine List.Pairwise.imp_of_mem ?_ ih
      intro first second hfirst hsecond hlt
      rwa [PassedBefore, firstThrough_append (mem_nextKeys.1 hfirst),
        firstThrough_append (mem_nextKeys.1 hsecond)]
    rw [nextKeys_append]
    split
    · exact hold
    · rename_i key _
      by_cases hkey : key ∈ nextKeys lists place
      · rwa [if_pos hkey]
      · rw [if_neg hkey, List.pairwise_append]
        refine ⟨hold, List.pairwise_singleton _ _, ?_⟩
        intro first hfirst second hsecond
        obtain rfl := List.mem_singleton.1 hsecond
        have hthrough := mem_nextKeys.1 hfirst
        calc firstThrough (lists ++ [keys]) (place ++ [first])
            = firstThrough lists (place ++ [first]) := firstThrough_append hthrough _
          _ < lists.length := firstThrough_lt_length.2 hthrough
          _ ≤ firstThrough (lists ++ [keys]) (place ++ [second]) :=
            length_le_firstThrough_append (fun h => hkey (mem_nextKeys.2 h)) _

/-! ## Trees by their places -/

namespace Slot

/-- A property of the branches that are found holds of all branches, if it makes the keys
distinct, since then all of them are found. -/
theorem every_of_forall_at? {level : TargetTree → Prop}
    (hnodup : ∀ entries, level entries → entries.keys.Nodup) {slot : Slot}
    (h : ∀ place entries, slot.at? place = some (.branch entries) → level entries) :
    slot.Every level fun _ => True := by
  induction slot using Slot.induction with
  | leaf source => trivial
  | branch entries ih =>
    have hlevel := h [] entries rfl
    rw [Slot.Every, TargetTree.every_iff]
    refine ⟨hlevel, ?_⟩
    intro entry hentry
    apply ih entry hentry
    intro place below hbelow
    apply h (entry.1 :: place) below
    rw [at?_cons, Slot.entries, lookup_eq_some_of_mem (hnodup _ hlevel) hentry, Option.bind_some,
      hbelow]

/-- What stands at a slot itself: the source of a leaf, or the keys of a branch. -/
def label : Slot → Text ⊕ List Text
  | .leaf source => .inl source
  | .branch entries => .inr (TargetTree.keys entries)

theorem label_eq_inl_iff {slot : Slot} {source : Text} :
    slot.label = .inl source ↔ slot = .leaf source := by
  cases slot <;> simp [label]

theorem label_eq_inr_iff {slot : Slot} {keys : List Text} :
    slot.label = .inr keys ↔
      ∃ entries : TargetTree, slot = .branch entries ∧ entries.keys = keys := by
  cases slot <;> simp [label]

end Slot

/-- Levels are equal if they have the same keys with the same slots. -/
theorem TargetTree.eq_of_lookup {left right : TargetTree} (hkeys : left.keys = right.keys)
    (hnodup : right.keys.Nodup) (h : ∀ entry ∈ left, right.lookup entry.1 = some entry.2) :
    left = right := by
  have hlength : left.length = right.length := by
    simpa [keys] using congrArg List.length hkeys
  refine List.ext_getElem hlength ?_
  intro i hleft hright
  have hkey : left[i].1 = right[i].1 := by
    have hi := congrArg (·[i]?) hkeys
    simpa [keys, hleft, hright] using hi
  have hslot : right.lookup left[i].1 = some left[i].2 := h left[i] (List.getElem_mem hleft)
  have hown : right.lookup right[i].1 = some right[i].2 :=
    lookup_eq_some_of_mem hnodup (List.getElem_mem hright)
  rw [hkey, hown] at hslot
  exact Prod.ext hkey (Option.some.inj hslot).symm

/-- Trees whose keys are distinct are equal if they have the same labels at all places. -/
theorem Slot.eq_of_label_eq {left right : Slot}
    (hleft : left.Every (·.keys.Nodup) fun _ => True)
    (hright : right.Every (·.keys.Nodup) fun _ => True)
    (h : ∀ place, (left.at? place).map label = (right.at? place).map label) : left = right := by
  induction left using Slot.induction generalizing right with
  | leaf source =>
    have hroot : some (Sum.inl source) = some right.label := h []
    exact (label_eq_inl_iff.1 (Option.some.inj hroot).symm).symm
  | branch entries ih =>
    have hroot : some (Sum.inr (TargetTree.keys entries)) = some right.label := h []
    obtain ⟨others, rfl, hkeys⟩ := label_eq_inr_iff.1 (Option.some.inj hroot).symm
    rw [Slot.Every, TargetTree.every_iff] at hleft hright
    have hslots : ∀ entry ∈ entries, others.lookup entry.1 = some entry.2 := by
      intro entry hentry
      have hfound : entries.lookup entry.1 = some entry.2 :=
        lookup_eq_some_of_mem hleft.1 hentry
      have hbelow : ∀ place,
          (entry.2.at? place).map label = ((others.lookup entry.1).bind (at? place)).map label := by
        intro place
        have hplace := h (entry.1 :: place)
        rwa [at?_cons, at?_cons, Slot.entries, hfound, Option.bind_some, Slot.entries] at hplace
      cases hother : others.lookup entry.1 with
      | none =>
        have hnone := hbelow []
        simp [hother] at hnone
      | some slot =>
        rw [hother] at hbelow
        rw [ih entry hentry (hleft.2 entry hentry) (hright.2 _ (mem_of_lookup hother)) hbelow]
    rw [TargetTree.eq_of_lookup hkeys.symm hright.1 hslots]

/-! ## Recording inserts -/

namespace TargetTree

/-- A tree that holds what some inserts say. -/
structure Records (inserts : List (List Text × Text)) (tree : TargetTree) : Prop where
  /-- The keys of the first level are distinct. -/
  top : tree.keys.Nodup
  /-- The branches below are not empty, and their keys are distinct. -/
  levels : tree.Every (fun entries => entries ≠ [] ∧ entries.keys.Nodup) fun _ => True
  /-- A slot is set wherever an insert passes through, to a leaf or to a branch. -/
  set_iff : ∀ place ≠ [], (∃ slot, (Slot.branch tree).at? place = some slot) ↔
    ∃ entry ∈ inserts, place <+: entry.1
  /-- There is a branch where an inserted key list goes on. -/
  branch_iff : ∀ place ≠ [], (∃ entries, (Slot.branch tree).at? place = some (.branch entries)) ↔
    ∃ entry ∈ inserts, place <+: entry.1 ∧ place ≠ entry.1
  /-- There is a leaf where one ends and none goes on, with the source that came first. -/
  leaf_iff : ∀ place ≠ [], ∀ source, (Slot.branch tree).at? place = some (.leaf source) ↔
    (∃ entry ∈ inserts, place = entry.1) ∧
      (¬ ∃ entry ∈ inserts, place <+: entry.1 ∧ place ≠ entry.1) ∧
      (inserts.find? (·.1 = place)).map (·.2) = some source
  /-- The keys of a branch are those that inserts pass through. -/
  mem_keys_iff : ∀ place (entries : TargetTree),
    (Slot.branch tree).at? place = some (.branch entries) →
    ∀ key, key ∈ entries.keys ↔ ∃ entry ∈ inserts, place ++ [key] <+: entry.1
  /-- They stand in the order of the first inserts that do. -/
  keys_ordered : ∀ place (entries : TargetTree),
    (Slot.branch tree).at? place = some (.branch entries) →
    entries.keys.Pairwise (PassedBefore (inserts.map (·.1)) place)

variable {inserts : List (List Text × Text)} {tree : TargetTree}

theorem isInner_iff {place : List Text} (hne : place ≠ []) :
    IsInner (inserts.map (·.1)) place ↔ ∃ entry ∈ inserts, place <+: entry.1 ∧ place ≠ entry.1 := by
  simp [IsInner, hne]

theorem mem_and_eq_of_find? {place : List Text} {entry : List Text × Text}
    (h : inserts.find? (·.1 = place) = some entry) : entry ∈ inserts ∧ place = entry.1 := by
  have hplace : entry.1 = place := by simpa using List.find?_some h
  exact ⟨List.mem_of_find?_eq_some h, hplace.symm⟩

namespace HoldsAt

variable {place : List Text} (h : HoldsAt inserts place tree)

include h

theorem keys_of_at? {entries : TargetTree}
    (hat : (Slot.branch tree).at? place = some (.branch entries)) :
    entries.keys = nextKeys (inserts.map (·.1)) place := by
  rw [← h.keys, entriesAt, hat]
  rfl

theorem exists_branch_iff :
    (∃ entries, (Slot.branch tree).at? place = some (.branch entries)) ↔
      IsInner (inserts.map (·.1)) place := by
  refine ⟨?_, fun hinner => ⟨_, h.inner hinner⟩⟩
  rintro ⟨entries, hat⟩
  by_contra houter
  rw [h.outer houter] at hat
  obtain ⟨entry, -, hleaf⟩ := Option.map_eq_some_iff.1 hat
  simp at hleaf

/-- A list that goes on behind a branch puts a key into it. -/
theorem ne_nil_of_at? (hne : place ≠ []) {entries : TargetTree}
    (hat : (Slot.branch tree).at? place = some (.branch entries)) : entries ≠ [] := by
  obtain ⟨⟨keys, source⟩, hmem, ⟨rest, rfl⟩, hproper⟩ :=
    (isInner_iff hne).1 (h.exists_branch_iff.1 ⟨_, hat⟩)
  rintro rfl
  cases rest with
  | nil => simp at hproper
  | cons key rest =>
    have hkey : key ∈ nextKeys (inserts.map (·.1)) place :=
      mem_nextKeys.2 ⟨_, List.mem_map_of_mem hmem, rest, by simp⟩
    rw [← h.keys_of_at? hat] at hkey
    simp [TargetTree.keys] at hkey

theorem at?_eq_leaf_iff {source : Text} :
    (Slot.branch tree).at? place = some (.leaf source) ↔
      ¬ IsInner (inserts.map (·.1)) place ∧
        (inserts.find? (·.1 = place)).map (·.2) = some source := by
  by_cases hinner : IsInner (inserts.map (·.1)) place
  · simp [h.inner hinner, hinner]
  · simp [h.outer hinner, hinner]

theorem exists_at?_iff (hne : place ≠ []) :
    (∃ slot, (Slot.branch tree).at? place = some slot) ↔ ∃ entry ∈ inserts, place <+: entry.1 := by
  by_cases hinner : IsInner (inserts.map (·.1)) place
  · obtain ⟨entry, hmem, hway, -⟩ := (isInner_iff hne).1 hinner
    exact iff_of_true ⟨_, h.inner hinner⟩ ⟨entry, hmem, hway⟩
  · rw [h.outer hinner]
    constructor
    · rintro ⟨slot, hslot⟩
      obtain ⟨entry, hfound, -⟩ := Option.map_eq_some_iff.1 hslot
      obtain ⟨hmem, rfl⟩ := mem_and_eq_of_find? hfound
      exact ⟨entry, hmem, List.prefix_refl _⟩
    · rintro ⟨entry, hmem, hway⟩
      -- the insert ends at the place, since none goes on
      have hplace : place = entry.1 := by
        by_contra hproper
        exact hinner ((isInner_iff hne).2 ⟨entry, hmem, hway, hproper⟩)
      have hfound : (inserts.find? (·.1 = place)).isSome = true :=
        List.find?_isSome.2 ⟨entry, hmem, by simp [hplace]⟩
      obtain ⟨first, hfirst⟩ := Option.isSome_iff_exists.1 hfound
      exact ⟨.leaf first.2, by rw [hfirst, Option.map_some]⟩

end HoldsAt

/-- The tree of some inserts records them. -/
theorem records_ofInserts (inserts : List (List Text × Text)) :
    Records inserts (ofInserts inserts) := by
  have hholds := holdsAt_ofInserts inserts
  have hnodup : ∀ {place} {entries : TargetTree},
      (Slot.branch (ofInserts inserts)).at? place = some (.branch entries) →
      entries.keys.Nodup := by
    intro place entries hat
    rw [(hholds place).keys_of_at? hat]
    exact nodup_distinct _
  have htop : (ofInserts inserts).keys.Nodup := hnodup (Slot.at?_nil _)
  refine ⟨htop, ?_, fun place hne => (hholds place).exists_at?_iff hne, ?_, ?_, ?_, ?_⟩
  · rw [every_iff]
    intro entry hentry
    apply Slot.every_of_forall_at? fun _ hlevel => hlevel.2
    intro place entries hbelow
    have hat :
        (Slot.branch (ofInserts inserts)).at? (entry.1 :: place) = some (.branch entries) := by
      rw [Slot.at?_cons, Slot.entries, lookup_eq_some_of_mem htop hentry, Option.bind_some, hbelow]
    exact ⟨(hholds _).ne_nil_of_at? (List.cons_ne_nil _ _) hat, hnodup hat⟩
  · intro place hne
    rw [(hholds place).exists_branch_iff, isInner_iff hne]
  · intro place hne source
    rw [(hholds place).at?_eq_leaf_iff, isInner_iff hne]
    constructor
    · rintro ⟨hlast, hfound⟩
      obtain ⟨entry, hentry, -⟩ := Option.map_eq_some_iff.1 hfound
      exact ⟨⟨entry, mem_and_eq_of_find? hentry⟩, hlast, hfound⟩
    · exact And.right
  · intro place entries hat key
    rw [(hholds place).keys_of_at? hat, mem_nextKeys]
    simp
  · intro place entries hat
    rw [(hholds place).keys_of_at? hat]
    exact pairwise_nextKeys _ place

namespace Records

theorem every_nodup (h : Records inserts tree) :
    (Slot.branch tree).Every (·.keys.Nodup) fun _ => True := by
  rw [Slot.Every, every_iff]
  exact ⟨h.top, fun entry hentry =>
    every_mono (fun _ hlevel => hlevel.2) (every_iff.1 h.levels entry hentry)⟩

/-- Branches at one place have the same keys in trees that record the same inserts. -/
theorem keys_eq {other : TargetTree} (h : Records inserts tree) (hother : Records inserts other)
    {place : List Text} {left right : TargetTree}
    (hleft : (Slot.branch tree).at? place = some (.branch left))
    (hright : (Slot.branch other).at? place = some (.branch right)) : left.keys = right.keys := by
  refine List.Pairwise.eq_of_mem_iff (h.keys_ordered _ _ hleft) (hother.keys_ordered _ _ hright) ?_
  intro key
  rw [h.mem_keys_iff _ _ hleft, hother.mem_keys_iff _ _ hright]

/-- A label is found in one tree if it is found in the other. -/
theorem label_at? {other : TargetTree} (h : Records inserts tree) (hother : Records inserts other)
    (place : List Text) {label : Text ⊕ List Text}
    (hlabel : ((Slot.branch tree).at? place).map Slot.label = some label) :
    ((Slot.branch other).at? place).map Slot.label = some label := by
  rw [Option.map_eq_some_iff] at hlabel ⊢
  obtain ⟨slot, hat, hslot⟩ := hlabel
  cases label with
  | inl source =>
    obtain rfl := Slot.label_eq_inl_iff.1 hslot
    have hne : place ≠ [] := by
      rintro rfl
      simp at hat
    exact ⟨_, (hother.leaf_iff place hne source).2 ((h.leaf_iff place hne source).1 hat), rfl⟩
  | inr keys =>
    obtain ⟨entries, rfl, rfl⟩ := Slot.label_eq_inr_iff.1 hslot
    obtain ⟨others, hothers⟩ :
        ∃ others, (Slot.branch other).at? place = some (.branch others) := by
      by_cases hne : place = []
      · subst hne
        exact ⟨other, rfl⟩
      · exact (hother.branch_iff place hne).2 ((h.branch_iff place hne).1 ⟨entries, hat⟩)
    exact ⟨_, hothers, congrArg Sum.inr (hother.keys_eq h hothers hat)⟩

/-- One tree at most records some inserts. -/
theorem unique {other : TargetTree} (h : Records inserts tree) (hother : Records inserts other) :
    tree = other := by
  have hlabels : ∀ place, ((Slot.branch tree).at? place).map Slot.label =
      ((Slot.branch other).at? place).map Slot.label := by
    intro place
    apply Option.ext
    exact fun label => ⟨h.label_at? hother place, hother.label_at? h place⟩
  exact Slot.branch.inj (Slot.eq_of_label_eq h.every_nodup hother.every_nodup hlabels)

end Records

/-- The tree of some inserts is the one tree that records them. -/
theorem records_iff_eq_ofInserts (inserts : List (List Text × Text)) (tree : TargetTree) :
    Records inserts tree ↔ tree = ofInserts inserts := by
  constructor
  · intro h
    exact h.unique (records_ofInserts inserts)
  · rintro rfl
    exact records_ofInserts inserts

-- The leaf at `sum` gives way to a branch, which keeps the place before `day`.
example : ofInserts [(["sum".toList], "a".toList), (["day".toList], "b".toList),
      (["sum".toList, "net".toList], "c".toList), (["sum".toList], "d".toList),
      (["sum".toList, "net".toList], "e".toList)] =
    [("sum".toList, .branch [("net".toList, .leaf "c".toList)]),
      ("day".toList, .leaf "b".toList)] := by
  rfl

end TargetTree

end Reshape
