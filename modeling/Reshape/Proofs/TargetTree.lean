import Reshape.Proofs.Members
import Reshape.Proofs.Reading
import Reshape.Proofs.Upsert

/-!
# Target trees and their inserts

A target tree is built by inserting key lists one after the other.  This module
says what the tree holds in terms of the inserts alone.

There are five groups.

* Looking up.  `Slot.at?` follows a list of keys, and `lookup_alter` and
  `keys_alter` say what changing one slot does to a level.
* One insert.  `at?_insert_elsewhere`, `at?_insert_self` and
  `at?_insert_append` give the slot at every place after an insert.
* All inserts.  A place is inner if an inserted key list goes on behind it.
  `holdsAt_ofInserts` gives the slot at every place of the finished tree: a branch
  at inner places, with its keys in the order in which they were first mentioned,
  and the first source that was inserted elsewhere.
* Properties of all levels.  `Slot.Every` is a property of the levels and the
  leaves of a tree, and `every_insert` says when inserts keep it.
* The height of a tree, which `height_ofInserts_le_iff` reads off the lengths of
  the key lists.
-/

namespace Reshape

/-- Induction over the slots of a tree. -/
theorem Slot.induction {motive : Slot → Prop} (leaf : ∀ source, motive (.leaf source))
    (branch : ∀ entries, (∀ entry ∈ entries, motive entry.2) → motive (.branch entries)) :
    ∀ slot, motive slot
  | .leaf source => leaf source
  | .branch entries => branch entries fun entry _ => Slot.induction leaf branch entry.2
decreasing_by
  have hmem : entry ∈ entries := by assumption
  have hlt := List.sizeOf_lt_of_mem hmem
  have hpair : sizeOf entry = 1 + sizeOf entry.1 + sizeOf entry.2 := Prod.mk.sizeOf_spec ..
  rw [Slot.branch.sizeOf_spec]
  omega

/-! ## Looking up -/

/-- The slot that a list of keys leads to. -/
def Slot.at? : List Text → Slot → Option Slot
  | [], slot => some slot
  | key :: rest, slot => (slot.entries.lookup key).bind (Slot.at? rest)

@[simp] theorem Slot.at?_nil (slot : Slot) : slot.at? [] = some slot := rfl

@[simp] theorem Slot.at?_cons (key : Text) (rest : List Text) (slot : Slot) :
    slot.at? (key :: rest) = (slot.entries.lookup key).bind (Slot.at? rest) := rfl

theorem Slot.at?_append (slot : Slot) (place rest : List Text) :
    slot.at? (place ++ rest) = (slot.at? place).bind (Slot.at? rest) := by
  induction place generalizing slot with
  | nil => rfl
  | cons key place ih =>
    simp only [List.cons_append, Slot.at?_cons]
    cases slot.entries.lookup key with
    | none => rfl
    | some child => exact ih child

namespace TargetTree

/-- The keys of a level. -/
def keys (tree : TargetTree) : List Text :=
  tree.map (·.1)

/-- The entries below a place, none if there is no branch. -/
def entriesAt (place : List Text) (tree : TargetTree) : TargetTree :=
  (((Slot.branch tree).at? place).map Slot.entries).getD []

theorem lookup_alter (key : Text) (f : Option Slot → Slot) (tree : TargetTree) (k : Text) :
    (alter key f tree).lookup k = if k = key then some (f (tree.lookup key)) else tree.lookup k := by
  induction tree with
  | nil =>
    by_cases hk : k = key
    · simp [alter, hk]
    · have hb : (k == key) = false := by simp [hk]
      simp [alter, List.lookup, hk, hb]
  | cons entry tree ih =>
    obtain ⟨first, slot⟩ := entry
    rw [alter]
    by_cases hfirst : first = key
    · subst hfirst
      by_cases hk : k = first
      · simp [hk]
      · have hb : (k == first) = false := by simp [hk]
        simp [List.lookup, hk, hb]
    · have hb : (key == first) = false := by simp [Ne.symm hfirst]
      rw [if_neg hfirst]
      simp only [List.lookup_cons, hb, ih]
      by_cases hk : k = first
      · subst hk
        simp [hfirst]
      · have hb' : (k == first) = false := by simp [hk]
        simp [hb']

/-- Changing a slot keeps the keys, or puts the new key at the end. -/
theorem keys_alter (key : Text) (f : Option Slot → Slot) (tree : TargetTree) :
    (alter key f tree).keys = if key ∈ tree.keys then tree.keys else tree.keys ++ [key] := by
  induction tree with
  | nil => simp [alter, keys]
  | cons entry tree ih =>
    obtain ⟨first, slot⟩ := entry
    simp only [keys] at ih
    rw [alter]
    by_cases hfirst : first = key
    · simp [keys, hfirst]
    · simp only [keys, if_neg hfirst, List.map_cons, ih, List.mem_cons, Ne.symm hfirst, false_or]
      by_cases hmem : key ∈ tree.map (·.1)
      · simp only [hmem, ↓reduceIte]
      · simp only [hmem, ↓reduceIte, List.cons_append]

/-! ## One insert -/

/-- The keys of the first level after an insert. -/
theorem keys_insert (source key : Text) (rest : List Text) (tree : TargetTree) :
    (insert source (key :: rest) tree).keys =
      if key ∈ tree.keys then tree.keys else tree.keys ++ [key] := by
  cases rest with
  | nil => rw [insert, keys_alter]
  | cons next rest => rw [insert, keys_alter]

/-- An insert changes nothing at places that are not on the way. -/
theorem at?_insert_elsewhere (source : Text) {keys place : List Text} (h : ¬ place <+: keys)
    (tree : TargetTree) :
    (Slot.branch (insert source keys tree)).at? place = (Slot.branch tree).at? place := by
  induction place generalizing keys tree with
  | nil => exact absurd List.nil_prefix h
  | cons k place ih =>
    cases keys with
    | nil => rfl
    | cons key rest =>
      by_cases hk : k = key
      · subst hk
        have hplace : ¬ place <+: rest := fun hp => h (by simpa using hp)
        cases rest with
        | nil =>
          simp only [insert, Slot.at?_cons, Slot.entries, lookup_alter, if_true]
          cases tree.lookup k with
          | some slot => rfl
          | none =>
            cases place with
            | nil => exact absurd List.nil_prefix hplace
            | cons next place => rfl
        | cons next rest =>
          have hrec := ih hplace (((tree.lookup k).map Slot.entries).getD [])
          simp only [insert, Slot.at?_cons, Slot.entries, lookup_alter, if_true, Option.bind_some,
            hrec]
          cases place with
          | nil => exact absurd List.nil_prefix hplace
          | cons second place =>
            cases tree.lookup k with
            | none => rfl
            | some slot => rfl
      · cases rest with
        | nil => simp [insert, Slot.entries, lookup_alter, hk]
        | cons next rest => simp [insert, Slot.entries, lookup_alter, hk]

/-- At its own place an insert leaves what is there, or puts a leaf. -/
theorem at?_insert_self (source : Text) {place : List Text} (hne : place ≠ [])
    (tree : TargetTree) :
    (Slot.branch (insert source place tree)).at? place =
      some (((Slot.branch tree).at? place).getD (.leaf source)) := by
  induction place generalizing tree with
  | nil => exact absurd rfl hne
  | cons key rest ih =>
    cases rest with
    | nil =>
      simp only [insert, Slot.at?_cons, Slot.entries, lookup_alter, if_true, Option.bind_some,
        Slot.at?_nil]
      cases tree.lookup key with
      | none => rfl
      | some slot => rfl
    | cons next rest =>
      have hrec := ih (by simp) (((tree.lookup key).map Slot.entries).getD [])
      simp only [insert, Slot.at?_cons key, Slot.entries, lookup_alter, if_true, Option.bind_some,
        hrec]
      cases tree.lookup key with
      | none => rfl
      | some slot => rfl

/-- On the way an insert leaves a branch, into which it inserts what is left of
its keys. -/
theorem at?_insert_append (source : Text) (place : List Text) {rest : List Text} (hne : rest ≠ [])
    (tree : TargetTree) :
    (Slot.branch (insert source (place ++ rest) tree)).at? place =
      some (.branch (insert source rest (entriesAt place tree))) := by
  induction place generalizing tree with
  | nil => rfl
  | cons key place ih =>
    obtain ⟨second, others, hcons⟩ : ∃ second others, place ++ rest = second :: others := by
      cases place with
      | nil => exact List.exists_cons_of_ne_nil hne
      | cons k place => exact ⟨k, place ++ rest, rfl⟩
    have hrec := ih (((tree.lookup key).map Slot.entries).getD [])
    rw [hcons] at hrec
    simp only [List.cons_append, hcons, insert, Slot.at?_cons, Slot.entries, lookup_alter, if_true,
      Option.bind_some, hrec, entriesAt]
    cases place with
    | nil =>
      cases tree.lookup key with
      | none => rfl
      | some slot => rfl
    | cons k place =>
      cases tree.lookup key with
      | none => rfl
      | some slot => rfl

end TargetTree

/-! ## All inserts -/

/-- A place is inner for some key lists if it is the root or one of them goes on
behind it. -/
def IsInner (lists : List (List Text)) (place : List Text) : Prop :=
  place = [] ∨ ∃ keys ∈ lists, place <+: keys ∧ place ≠ keys

/-- The keys that follow a place in some key lists, in the order in which they
are first mentioned. -/
def nextKeys (lists : List (List Text)) (place : List Text) : List Text :=
  distinct (lists.filterMap fun keys => if place <+: keys then keys[place.length]? else none)

theorem mem_nextKeys {lists : List (List Text)} {place : List Text} {key : Text} :
    key ∈ nextKeys lists place ↔ ∃ keys ∈ lists, place ++ [key] <+: keys := by
  rw [nextKeys, mem_distinct, List.mem_filterMap]
  constructor
  · rintro ⟨keys, hkeys, hnext⟩
    refine ⟨keys, hkeys, ?_⟩
    split at hnext
    · rename_i hway
      obtain ⟨rest, rfl⟩ := hway
      cases rest with
      | nil => simp at hnext
      | cons first rest =>
        simp at hnext
        simp [hnext]
    · simp at hnext
  · rintro ⟨keys, hkeys, rest, rfl⟩
    exact ⟨_, hkeys, by simp⟩

theorem nextKeys_append (lists : List (List Text)) (keys place : List Text) :
    nextKeys (lists ++ [keys]) place =
      match (if place <+: keys then keys[place.length]? else none) with
      | none => nextKeys lists place
      | some key =>
          if key ∈ nextKeys lists place then nextKeys lists place
          else nextKeys lists place ++ [key] := by
  rw [nextKeys, List.filterMap_append]
  generalize hnext : (if place <+: keys then keys[place.length]? else none) = next
  cases next with
  | none => simp [hnext, nextKeys]
  | some key =>
    simp only [List.filterMap_cons, hnext, List.filterMap_nil, distinct_append_singleton]
    by_cases hkey : key ∈ nextKeys lists place
    · rw [if_pos hkey]
      exact if_pos hkey
    · rw [if_neg hkey]
      exact if_neg hkey

namespace TargetTree

/-- The tree of some key lists with their sources. -/
def ofInserts (inserts : List (List Text × Text)) : TargetTree :=
  inserts.foldl (fun tree entry => tree.insert entry.2 entry.1) []

theorem ofInserts_append (inserts : List (List Text × Text)) (keys : List Text) (source : Text) :
    ofInserts (inserts ++ [(keys, source)]) = (ofInserts inserts).insert source keys := by
  simp [ofInserts, List.foldl_append]

theorem alter_append_of_notMem {key : Text} {tree : TargetTree} (h : key ∉ tree.keys)
    (f : Option Slot → Slot) (rest : TargetTree) :
    alter key f (tree ++ rest) = tree ++ alter key f rest := by
  induction tree with
  | nil => rfl
  | cons entry tree ih =>
    obtain ⟨k, slot⟩ := entry
    simp only [keys, List.map_cons, List.mem_cons, not_or] at h
    have hne : k ≠ key := fun he => h.1 he.symm
    rw [List.cons_append, alter, if_neg hne, ih h.2, List.cons_append]

/-- Inserts under new keys do not meet the entries before them. -/
theorem ofInserts_append_of_fresh {first second : List (List Text × Text)}
    (h : ∀ entry ∈ second, ∃ key rest, entry.1 = key :: rest ∧ key ∉ (ofInserts first).keys) :
    ofInserts (first ++ second) = ofInserts first ++ ofInserts second := by
  induction second using List.reverseRecOn with
  | nil => simp [ofInserts]
  | append_singleton second entry ih =>
    obtain ⟨path, source⟩ := entry
    obtain ⟨key, rest, hpath, hfresh⟩ := h (path, source) (by simp)
    have hsecond := ih fun entry hentry => h entry (by simp [hentry])
    simp only at hpath
    subst hpath
    rw [← List.append_assoc, ofInserts_append, ofInserts_append, hsecond]
    cases rest with
    | nil => rw [insert, alter_append_of_notMem hfresh, insert]
    | cons next rest => rw [insert, alter_append_of_notMem hfresh, insert]

/-- What a finished tree holds at a place. -/
structure HoldsAt (inserts : List (List Text × Text)) (place : List Text) (tree : TargetTree) :
    Prop where
  keys : (tree.entriesAt place).keys = nextKeys (inserts.map (·.1)) place
  inner : IsInner (inserts.map (·.1)) place →
    (Slot.branch tree).at? place = some (.branch (tree.entriesAt place))
  outer : ¬ IsInner (inserts.map (·.1)) place →
    (Slot.branch tree).at? place = (inserts.find? (·.1 = place)).map fun entry => .leaf entry.2

theorem holdsAt_nil (place : List Text) : HoldsAt [] place [] := by
  cases place with
  | nil => exact ⟨rfl, fun _ => rfl, fun h => absurd (.inl rfl) h⟩
  | cons key place => exact ⟨rfl, fun h => by simp [IsInner] at h, fun _ => rfl⟩

/-- An insert on the way to which a place lies. -/
theorem HoldsAt.insert_append {inserts : List (List Text × Text)} {place : List Text}
    {tree : TargetTree} (h : HoldsAt inserts place tree) (key : Text) (rest : List Text)
    (source : Text) :
    HoldsAt (inserts ++ [(place ++ key :: rest, source)]) place
      (tree.insert source (place ++ key :: rest)) := by
  have hat := at?_insert_append source place (List.cons_ne_nil key rest) tree
  have hentries : (tree.insert source (place ++ key :: rest)).entriesAt place =
      (tree.entriesAt place).insert source (key :: rest) := by
    rw [entriesAt, hat]
    rfl
  have hinner : IsInner ((inserts ++ [(place ++ key :: rest, source)]).map (·.1)) place :=
    .inr ⟨place ++ key :: rest, by simp, by simp, by simp⟩
  constructor
  · rw [hentries, keys_insert, h.keys, List.map_append, List.map_singleton, nextKeys_append]
    simp
  · intro _
    rw [hat, hentries]
  · exact fun hn => absurd hinner hn

/-- An insert at the place itself. -/
theorem HoldsAt.insert_self {inserts : List (List Text × Text)} {place : List Text}
    {tree : TargetTree} (h : HoldsAt inserts place tree) (hne : place ≠ []) (source : Text) :
    HoldsAt (inserts ++ [(place, source)]) place (tree.insert source place) := by
  have hat := at?_insert_self source hne tree
  have hiff : IsInner ((inserts ++ [(place, source)]).map (·.1)) place ↔
      IsInner (inserts.map (·.1)) place := by
    simp only [IsInner, List.map_append, List.map_singleton, List.mem_append, List.mem_singleton,
      hne, false_or]
    constructor
    · rintro ⟨keys, hkeys | rfl, hway, hproper⟩
      · exact ⟨keys, hkeys, hway, hproper⟩
      · exact absurd rfl hproper
    · rintro ⟨keys, hkeys, hproper⟩
      exact ⟨keys, .inl hkeys, hproper⟩
  have hentries : (tree.insert source place).entriesAt place = tree.entriesAt place := by
    rw [entriesAt, hat, entriesAt]
    cases (Slot.branch tree).at? place with
    | none => rfl
    | some slot => rfl
  constructor
  · rw [hentries, h.keys, List.map_append, List.map_singleton, nextKeys_append]
    simp
  · intro hin
    rw [hat, h.inner (hiff.1 hin), hentries]
    rfl
  · intro hout
    rw [hat, h.outer fun hin => hout (hiff.2 hin), List.find?_append]
    cases inserts.find? (·.1 = place) with
    | none => simp
    | some entry => simp

/-- An insert elsewhere. -/
theorem HoldsAt.insert_elsewhere {inserts : List (List Text × Text)} {place : List Text}
    {tree : TargetTree} (h : HoldsAt inserts place tree) {keys : List Text}
    (hway : ¬ place <+: keys) (source : Text) :
    HoldsAt (inserts ++ [(keys, source)]) place (tree.insert source keys) := by
  have hat := at?_insert_elsewhere source hway tree
  have hiff : IsInner ((inserts ++ [(keys, source)]).map (·.1)) place ↔
      IsInner (inserts.map (·.1)) place := by
    simp only [IsInner, List.map_append, List.map_singleton, List.mem_append, List.mem_singleton]
    constructor
    · rintro (hnil | ⟨others, hothers | rfl, hp, hproper⟩)
      · exact .inl hnil
      · exact .inr ⟨others, hothers, hp, hproper⟩
      · exact absurd hp hway
    · rintro (hnil | ⟨others, hothers, hproper⟩)
      · exact .inl hnil
      · exact .inr ⟨others, .inl hothers, hproper⟩
  have hentries : (tree.insert source keys).entriesAt place = tree.entriesAt place := by
    rw [entriesAt, hat, entriesAt]
  constructor
  · rw [hentries, h.keys, List.map_append, List.map_singleton, nextKeys_append]
    simp [hway]
  · intro hin
    rw [hat, h.inner (hiff.1 hin), hentries]
  · intro hout
    have hne : keys ≠ place := fun he => hway (he ▸ List.prefix_refl keys)
    rw [hat, h.outer fun hin => hout (hiff.2 hin), List.find?_append]
    simp [hne]

/-- No keys at all lead nowhere, and nothing is inserted. -/
theorem HoldsAt.insert_nil {inserts : List (List Text × Text)} {tree : TargetTree}
    (h : HoldsAt inserts [] tree) (source : Text) :
    HoldsAt (inserts ++ [([], source)]) [] (tree.insert source []) := by
  refine ⟨?_, fun _ => rfl, fun hout => absurd (.inl rfl) hout⟩
  rw [insert, h.keys, List.map_append, List.map_singleton, nextKeys_append]
  rfl

/-- The tree of some inserts holds at every place what the inserts say. -/
theorem holdsAt_ofInserts (inserts : List (List Text × Text)) (place : List Text) :
    HoldsAt inserts place (ofInserts inserts) := by
  induction inserts using List.reverseRecOn with
  | nil => exact holdsAt_nil place
  | append_singleton inserts entry ih =>
    obtain ⟨keys, source⟩ := entry
    rw [ofInserts_append]
    by_cases hway : place <+: keys
    · obtain ⟨rest, rfl⟩ := hway
      cases rest with
      | nil =>
        rw [List.append_nil]
        by_cases hne : place = []
        · subst hne
          exact ih.insert_nil source
        · exact ih.insert_self hne source
      | cons key rest => exact ih.insert_append key rest source
    · exact ih.insert_elsewhere hway source

end TargetTree

/-! ## Properties of all levels -/

mutual

/-- Whether all levels below a slot have one property and all its leaves
another. -/
def Slot.Every (level : TargetTree → Prop) (source : Text → Prop) : Slot → Prop
  | .leaf text => source text
  | .branch entries => level entries ∧ TargetTree.Every level source entries

/-- The same for the slots of a level. -/
def TargetTree.Every (level : TargetTree → Prop) (source : Text → Prop) : TargetTree → Prop
  | [] => True
  | (_, slot) :: rest => slot.Every level source ∧ TargetTree.Every level source rest

end

mutual

/-- The number of levels below a slot. -/
def Slot.height : Slot → Nat
  | .leaf _ => 0
  | .branch entries => TargetTree.height entries

/-- The number of levels from a level down. -/
def TargetTree.height : TargetTree → Nat
  | [] => 0
  | (_, slot) :: rest => max (slot.height + 1) (TargetTree.height rest)

end

theorem Slot.height_branch_entries (slot : Slot) : TargetTree.height slot.entries = slot.height := by
  cases slot with
  | leaf source => simp [Slot.entries, Slot.height, TargetTree.height]
  | branch entries => simp [Slot.entries, Slot.height]

namespace TargetTree

variable {level : TargetTree → Prop} {source : Text → Prop}

theorem every_iff {tree : TargetTree} :
    tree.Every level source ↔ ∀ entry ∈ tree, entry.2.Every level source := by
  induction tree with
  | nil => simp [Every]
  | cons entry tree ih =>
    obtain ⟨key, slot⟩ := entry
    simp [Every, ih]

theorem every_alter {key : Text} {f : Option Slot → Slot} {tree : TargetTree}
    (h : tree.Every level source) (hf : (f (tree.lookup key)).Every level source) :
    (alter key f tree).Every level source := by
  induction tree with
  | nil => exact ⟨hf, trivial⟩
  | cons entry tree ih =>
    obtain ⟨first, slot⟩ := entry
    obtain ⟨hslot, hrest⟩ := h
    rw [alter]
    by_cases hfirst : first = key
    · subst hfirst
      rw [if_pos rfl]
      simp only [List.lookup_cons_self] at hf
      exact ⟨hf, hrest⟩
    · have hb : (key == first) = false := by simp [Ne.symm hfirst]
      rw [if_neg hfirst]
      simp only [List.lookup_cons, hb] at hf
      exact ⟨hslot, ih hrest hf⟩

/-- A level of distinct plain keys. -/
def IsPlain (tree : TargetTree) : Prop :=
  tree ≠ [] ∧ tree.keys.Nodup ∧ ∀ key ∈ tree.keys, key.isPlain = true

theorem isPlain_alter {key : Text} {f : Option Slot → Slot} {tree : TargetTree}
    (hkey : key.isPlain = true) (h : tree = [] ∨ tree.IsPlain) : (alter key f tree).IsPlain := by
  have htree : tree.keys.Nodup ∧ ∀ k ∈ tree.keys, k.isPlain = true := by
    rcases h with rfl | h
    · simp [keys]
    · exact h.2
  refine ⟨?_, ?_⟩
  · cases tree with
    | nil => simp [alter]
    | cons entry tree =>
      obtain ⟨first, slot⟩ := entry
      rw [alter]
      split <;> simp
  · rw [keys_alter]
    by_cases hmem : key ∈ tree.keys
    · rwa [if_pos hmem]
    · rw [if_neg hmem]
      refine ⟨?_, ?_⟩
      · rw [← List.concat_eq_append]
        exact List.Nodup.concat hmem htree.1
      · intro k hk
        rw [List.mem_append, List.mem_singleton] at hk
        rcases hk with hk | rfl
        · exact htree.2 k hk
        · exact hkey

/-- Inserting plain keys keeps the levels plain. -/
theorem every_insert {text : Text} {path : List Text} {tree : TargetTree} (hne : path ≠ [])
    (hpath : ∀ key ∈ path, key.isPlain = true) (htext : source text)
    (h : tree = [] ∨ (Slot.branch tree).Every IsPlain source) :
    (Slot.branch (insert text path tree)).Every IsPlain source := by
  induction path generalizing tree with
  | nil => exact absurd rfl hne
  | cons key rest ih =>
    have hlevel : tree = [] ∨ tree.IsPlain := h.imp_right fun ht => ht.1
    have hentries : tree.Every IsPlain source := by
      rcases h with rfl | h
      · trivial
      · exact h.2
    have hslot : ∀ slot, tree.lookup key = some slot → slot.Every IsPlain source :=
      fun slot hs => every_iff.1 hentries _ (mem_of_lookup hs)
    have hkey := hpath key (by simp)
    cases rest with
    | nil =>
      refine ⟨isPlain_alter hkey hlevel, every_alter hentries ?_⟩
      cases hs : tree.lookup key with
      | none => exact htext
      | some slot => exact hslot slot hs
    | cons next rest =>
      refine ⟨isPlain_alter hkey hlevel, every_alter hentries ?_⟩
      apply ih (by simp) fun k hk => hpath k (List.mem_cons_of_mem _ hk)
      cases hs : tree.lookup key with
      | none => exact .inl rfl
      | some slot =>
        cases slot with
        | leaf text => exact .inl rfl
        | branch entries => exact .inr (hslot _ hs)

/-- The levels of a tree of plain key lists are plain. -/
theorem every_ofInserts {inserts : List (List Text × Text)} (hinserts : inserts ≠ [])
    (hne : ∀ entry ∈ inserts, entry.1 ≠ [])
    (hpath : ∀ entry ∈ inserts, ∀ key ∈ entry.1, key.isPlain = true)
    (hsource : ∀ entry ∈ inserts, source entry.2) :
    (Slot.branch (ofInserts inserts)).Every IsPlain source := by
  induction inserts using List.reverseRecOn with
  | nil => exact absurd rfl hinserts
  | append_singleton inserts entry ih =>
    rw [ofInserts_append]
    apply every_insert (hne entry (by simp)) (hpath entry (by simp)) (hsource entry (by simp))
    by_cases hnil : inserts = []
    · exact .inl (by rw [hnil]; rfl)
    · exact .inr (ih hnil (fun e he => hne e (by simp [he])) (fun e he => hpath e (by simp [he]))
        fun e he => hsource e (by simp [he]))

theorem every_mono {wider : TargetTree → Prop} (himp : ∀ tree, level tree → wider tree)
    {slot : Slot} (h : slot.Every level source) : slot.Every wider source := by
  induction slot using Slot.induction with
  | leaf text => rwa [Slot.Every] at h ⊢
  | branch entries ih =>
    rw [Slot.Every, every_iff] at h ⊢
    exact ⟨himp entries h.1, fun entry hentry => ih entry hentry (h.2 entry hentry)⟩

/-! ## Height -/

theorem height_of_lookup {tree : TargetTree} {key : Text} {slot : Slot}
    (h : tree.lookup key = some slot) : slot.height + 1 ≤ tree.height := by
  have hmem := mem_of_lookup h
  clear h
  induction tree with
  | nil => simp at hmem
  | cons entry tree ih =>
    obtain ⟨first, child⟩ := entry
    rw [height]
    rw [List.mem_cons] at hmem
    rcases hmem with heq | hmem
    · cases heq
      omega
    · have := ih hmem
      omega

/-- Changing a slot into one that is at least as high. -/
theorem height_alter {key : Text} {f : Option Slot → Slot} {tree : TargetTree}
    (hf : ∀ slot, tree.lookup key = some slot → slot.height ≤ (f (some slot)).height) :
    height (alter key f tree) = max tree.height ((f (tree.lookup key)).height + 1) := by
  induction tree with
  | nil => simp [alter, height]
  | cons entry tree ih =>
    obtain ⟨first, slot⟩ := entry
    rw [alter]
    by_cases hfirst : first = key
    · subst hfirst
      have hslot := hf slot (by simp)
      simp only [if_true, height, List.lookup_cons_self]
      omega
    · have hb : (key == first) = false := by simp [Ne.symm hfirst]
      simp only [List.lookup_cons, hb] at hf ⊢
      simp only [if_neg hfirst, height, ih hf]
      omega

theorem height_insert (text : Text) (path : List Text) (tree : TargetTree) :
    height (insert text path tree) = max tree.height path.length := by
  induction path generalizing tree with
  | nil => simp [insert]
  | cons key rest ih =>
    cases rest with
    | nil =>
      rw [insert, height_alter fun slot _ => Nat.le_refl _]
      cases hs : tree.lookup key with
      | none => simp [Slot.height]
      | some slot =>
        have := height_of_lookup hs
        simp only [Option.getD_some, List.length_cons, List.length_nil]
        omega
    | cons next rest =>
      rw [insert, height_alter]
      · cases hs : tree.lookup key with
        | none => simp [Slot.height, ih, height]
        | some slot =>
          have := height_of_lookup hs
          simp only [Option.map_some, Option.getD_some, Slot.height, ih,
            slot.height_branch_entries, List.length_cons]
          omega
      · intro slot _
        simp only [Option.map_some, Option.getD_some, Slot.height, ih, slot.height_branch_entries]
        omega

/-- A tree is as high as its longest insert. -/
theorem height_ofInserts_le_iff {inserts : List (List Text × Text)} {n : Nat} :
    height (ofInserts inserts) ≤ n ↔ ∀ entry ∈ inserts, entry.1.length ≤ n := by
  induction inserts using List.reverseRecOn with
  | nil => simp [ofInserts, height]
  | append_singleton inserts entry ih =>
    rw [ofInserts_append, height_insert, Nat.max_le, ih]
    simp [or_imp, forall_and]

end TargetTree

end Reshape
