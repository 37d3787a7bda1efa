import Mathlib
import Reshape.Document.Patch

/-!
# Members with distinct keys

The operations on the members of an object, in terms of lookups.  An object keeps
its keys distinct, and on such members a lookup is membership, so it does not matter
that removing a member moves another one.
-/

namespace Reshape

/-! ## Association lists -/

section

variable {β : Type} {list : List (Text × β)} {key : Text} {value : β}

theorem mem_of_lookup (h : list.lookup key = some value) : (key, value) ∈ list := by
  obtain ⟨before, behind, rfl, -⟩ := List.lookup_eq_some_iff.1 h
  simp

theorem lookup_eq_none_of_notMem (h : key ∉ list.map (·.1)) : list.lookup key = none := by
  rw [List.lookup_eq_none_iff]
  intro entry hentry
  have hne : key ≠ entry.1 := fun he => h (List.mem_map.2 ⟨entry, hentry, he.symm⟩)
  simpa using hne

/-- Where the keys are distinct, every entry is found. -/
theorem lookup_eq_some_of_mem (h : (list.map (·.1)).Nodup) (hmem : (key, value) ∈ list) :
    list.lookup key = some value := by
  obtain ⟨before, behind, rfl⟩ := List.append_of_mem hmem
  rw [List.map_append, List.map_cons, List.nodup_append] at h
  refine List.lookup_eq_some_iff.2 ⟨before, behind, rfl, ?_⟩
  intro entry hentry
  have hne : entry.1 ≠ key :=
    h.2.2 entry.1 (List.mem_map_of_mem hentry) key (List.mem_cons_self ..)
  simpa using fun he : key = entry.1 => hne he.symm

end

namespace Members

/-- The keys of an object, in order. -/
def keys (members : Members) : List Text :=
  members.map (·.1)

variable {members : Members}

theorem get?_eq_none_iff {key : Text} : members.get? key = none ↔ key ∉ members.keys := by
  constructor
  · intro h hmem
    obtain ⟨entry, hentry, rfl⟩ := List.mem_map.1 hmem
    have := List.lookup_eq_none_iff.1 h entry hentry
    simp at this
  · exact lookup_eq_none_of_notMem

theorem get?_eq_some_iff (h : members.keys.Nodup) {key : Text} {value : Document} :
    members.get? key = some value ↔ (key, value) ∈ members :=
  ⟨mem_of_lookup, lookup_eq_some_of_mem h⟩

theorem get?_cons (key : Text) (value : Document) (members : Members) (k : Text) :
    get? ((key, value) :: members) k = if k = key then some value else members.get? k := by
  by_cases hk : k = key
  · simp [get?, hk]
  · simp [get?, List.lookup_cons, hk, beq_false_of_ne hk]

/-- The members are determined by their keys in order and the values of the keys. -/
theorem eq_of_get? {first second : Members} (hnodup : first.keys.Nodup)
    (hkeys : first.keys = second.keys) (h : ∀ key ∈ first.keys, first.get? key = second.get? key) :
    first = second := by
  induction first generalizing second with
  | nil => simpa [keys] using hkeys.symm
  | cons entry first ih =>
    cases second with
    | nil => simp [keys] at hkeys
    | cons other second =>
      obtain ⟨key, value⟩ := entry
      obtain ⟨key', value'⟩ := other
      simp only [keys, List.map_cons, List.cons.injEq, List.nodup_cons, List.mem_cons,
        forall_eq_or_imp] at hkeys hnodup h
      obtain ⟨rfl, hkeys⟩ := hkeys
      obtain ⟨hhead, hrest⟩ := h
      have hvalue : value = value' := by simpa [get?_cons] using hhead
      rw [hvalue, ih hnodup.2 hkeys]
      intro k hk
      have hne : k ≠ key := fun he => hnodup.1 (he ▸ hk)
      simpa [get?_cons, hne] using hrest k hk

/-! ## Setting a member -/

theorem insert_of_notMem {key : Text} (h : key ∉ members.keys)
    (value : Document) : members.insert key value = members ++ [(key, value)] := by
  induction members with
  | nil => rfl
  | cons entry members ih =>
    obtain ⟨k, v⟩ := entry
    simp only [keys, List.map_cons, List.mem_cons, not_or] at h
    have hne : k ≠ key := fun he => h.1 he.symm
    rw [insert, if_neg hne, ih h.2, List.cons_append]

theorem keys_insert_of_mem {key : Text} (h : key ∈ members.keys) (value : Document) :
    (members.insert key value).keys = members.keys := by
  induction members with
  | nil => simp [keys] at h
  | cons entry members ih =>
    obtain ⟨k, v⟩ := entry
    rw [insert]
    by_cases hk : k = key
    · rw [if_pos hk]
      rfl
    · have hrest : key ∈ keys members := by
        simpa [keys, Ne.symm hk] using h
      rw [if_neg hk]
      exact congrArg (k :: ·) (ih hrest)

theorem nodup_keys_insert (h : members.keys.Nodup) (key : Text) (value : Document) :
    (members.insert key value).keys.Nodup := by
  by_cases hmem : key ∈ members.keys
  · rw [keys_insert_of_mem hmem]
    exact h
  · have hkeys : (members.insert key value).keys = members.keys.concat key := by
      simp [insert_of_notMem hmem, keys]
    rw [hkeys]
    exact h.concat hmem

theorem mem_of_mem_insert {key : Text} {value : Document} {entry : Text × Document}
    (h : entry ∈ members.insert key value) : entry = (key, value) ∨ entry ∈ members := by
  induction members with
  | nil => exact .inl (List.mem_singleton.1 h)
  | cons first members ih =>
    obtain ⟨k, v⟩ := first
    rw [insert] at h
    by_cases hk : k = key
    · rw [if_pos hk, List.mem_cons, hk] at h
      exact h.imp_right (List.mem_cons_of_mem _)
    · rw [if_neg hk, List.mem_cons] at h
      rcases h with rfl | h
      · exact .inr (List.mem_cons_self ..)
      · exact (ih h).imp_right (List.mem_cons_of_mem _)

theorem get?_insert (key : Text) (value : Document) (members : Members) (k : Text) :
    (members.insert key value).get? k = if k = key then some value else members.get? k := by
  induction members with
  | nil => exact get?_cons key value [] k
  | cons entry members ih =>
    obtain ⟨first, v⟩ := entry
    rw [insert]
    by_cases hfirst : first = key
    · rw [if_pos hfirst, hfirst, get?_cons, get?_cons]
      by_cases hk : k = key
      · rw [if_pos hk, if_pos hk]
      · rw [if_neg hk, if_neg hk, if_neg hk]
    · rw [if_neg hfirst, get?_cons, get?_cons, ih]
      by_cases hk : k = first
      · rw [if_pos hk, if_pos hk, hk, if_neg hfirst]
      · rw [if_neg hk, if_neg hk]

/-- Setting a member to the value that it has changes nothing. -/
theorem insert_of_get? {key : Text} {value : Document} (h : members.get? key = some value) :
    members.insert key value = members := by
  induction members with
  | nil => simp [get?] at h
  | cons entry members ih =>
    obtain ⟨first, other⟩ := entry
    rw [get?_cons] at h
    rw [insert]
    by_cases hfirst : key = first
    · obtain rfl : other = value := by simpa [hfirst] using h
      rw [if_pos hfirst.symm]
    · rw [if_neg hfirst] at h
      rw [if_neg (Ne.symm hfirst), ih h]

/-- Members with distinct keys stay as they are when they are set one after the
other. -/
theorem ofList_of_nodup {pairs : List (Text × Document)} (h : (pairs.map (·.1)).Nodup) :
    ofList pairs = pairs := by
  have hfold : ∀ (rest : List (Text × Document)) (members : Members),
      ((members ++ rest).map (·.1)).Nodup →
      rest.foldl (fun members entry => insert entry.1 entry.2 members) members =
        members ++ rest := by
    intro rest
    induction rest with
    | nil => simp
    | cons entry rest ih =>
      intro members hnodup
      have hfresh : entry.1 ∉ members.keys := by
        simp only [List.map_append, List.map_cons, List.nodup_append, List.mem_cons] at hnodup
        exact fun hmem => hnodup.2.2 _ hmem _ (.inl rfl) rfl
      rw [List.foldl_cons, insert_of_notMem hfresh, ih _ (by simpa using hnodup)]
      simp
  exact hfold pairs [] (by simpa using h)

theorem nodup_keys_ofList (pairs : List (Text × Document)) : (ofList pairs).keys.Nodup :=
  List.foldlRecOn (motive := fun members => (keys members).Nodup) pairs _ List.nodup_nil
    fun _ h entry _ => nodup_keys_insert h entry.1 entry.2

theorem mem_of_mem_ofList {pairs : List (Text × Document)} {entry : Text × Document}
    (h : entry ∈ ofList pairs) : entry ∈ pairs := by
  have hall : ∀ entry ∈ ofList pairs, entry ∈ pairs := by
    refine List.foldlRecOn (motive := fun members => ∀ entry ∈ members, entry ∈ pairs) pairs _
      (by simp) ?_
    intro members hmembers entry hentry other hother
    rcases mem_of_mem_insert hother with rfl | hother
    · exact hentry
    · exact hmembers other hother
  exact hall entry h

/-! ## Removing a member -/

theorem remove_of_notMem {key : Text} (h : key ∉ members.keys) : members.remove key = members := by
  induction members with
  | nil => rfl
  | cons entry members ih =>
    obtain ⟨first, value⟩ := entry
    simp only [keys, List.map_cons, List.mem_cons, not_or] at h
    rw [remove, if_neg (Ne.symm h.1), ih h.2]

/-- Removing a member leaves the others, in some order. -/
theorem remove_perm (h : members.keys.Nodup) (key : Text) :
    (members.remove key).Perm (members.filter (·.1 ≠ key)) := by
  induction members with
  | nil => exact .nil
  | cons entry members ih =>
    obtain ⟨first, value⟩ := entry
    rw [keys, List.map_cons, List.nodup_cons] at h
    rw [remove]
    by_cases hfirst : first = key
    · subst hfirst
      have hfilter : members.filter (·.1 ≠ first) = members := by
        rw [List.filter_eq_self]
        intro other hother
        have hmem : other.1 ∈ members.map (·.1) := List.mem_map_of_mem hother
        have hne : other.1 ≠ first := fun he => h.1 (he ▸ hmem)
        simpa using hne
      rw [if_pos rfl, List.filter_cons_of_neg (by simp), hfilter]
      cases hlast : members.getLast? with
      | none =>
        rw [List.getLast?_eq_none_iff.1 hlast]
      | some last =>
        obtain ⟨init, rfl⟩ := List.getLast?_eq_some_iff.1 hlast
        rw [List.dropLast_concat]
        exact (List.perm_append_singleton last init).symm
    · rw [if_neg hfirst, List.filter_cons_of_pos (by simpa using hfirst)]
      exact (ih h.2).cons (first, value)

theorem nodup_keys_remove (h : members.keys.Nodup) (key : Text) :
    (members.remove key).keys.Nodup := by
  have hperm := (remove_perm h key).map (·.1)
  exact hperm.nodup_iff.2 ((List.filter_sublist.map _).nodup h)

theorem get?_remove (h : members.keys.Nodup) (key k : Text) :
    (members.remove key).get? k = if k = key then none else members.get? k := by
  ext value
  rw [get?_eq_some_iff (nodup_keys_remove h key), (remove_perm h key).mem_iff, List.mem_filter]
  by_cases hk : k = key
  · simp [hk]
  · simp [hk, get?_eq_some_iff h]

end Members

/-- The value that a list of keys leads to, through nested objects. -/
def Document.at? : List Text → Document → Option Document
  | [], d => some d
  | key :: rest, d => (Members.get? d.membersOrNone key).bind (Document.at? rest)

theorem Document.at?_append (document : Document) (place rest : List Text) :
    document.at? (place ++ rest) = (document.at? place).bind (Document.at? rest) := by
  induction place generalizing document with
  | nil => rfl
  | cons key place ih =>
    rw [List.cons_append, at?, at?]
    cases Members.get? document.membersOrNone key with
    | none => rfl
    | some value => exact ih value

end Reshape
