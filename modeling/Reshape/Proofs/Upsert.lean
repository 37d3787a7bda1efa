import Mathlib
import Reshape.Upsert

/-!
# Lists without two elements of one identity

Upserting keeps a list in which no element is the same as another, and collecting
such a list changes nothing.  `getElem?_upsert` is what stands at each place after an
element has been upserted.  What collecting makes of any list is said twice.

* `mem_collect_iff`: an element is kept if it is the last one of its identity, and
  `mem_collect_iff_exists_split`: if none of its identity comes behind it.
* `map_collect`: the identities are kept in the order of their first occurrence, which
  is the order of `distinct`.

`collect_eq_filterMap` is the closed form that follows from both.
-/

namespace Reshape

variable {α κ : Type} {same : α → α → Bool}

/-- No two elements have the same identity. -/
def Apart (same : α → α → Bool) (xs : List α) : Prop :=
  xs.Pairwise fun x y => same x y = false

instance (same : α → α → Bool) (xs : List α) : Decidable (Apart same xs) :=
  inferInstanceAs (Decidable (xs.Pairwise _))

theorem mem_of_mem_upsert {x y : α} {xs : List α} (h : y ∈ upsert same x xs) :
    y = x ∨ y ∈ xs := by
  induction xs with
  | nil => simpa [upsert] using h
  | cons z xs ih =>
    rw [upsert] at h
    split at h
    · rcases List.mem_cons.1 h with rfl | hmem
      · exact .inl rfl
      · exact .inr (by simp [hmem])
    · rcases List.mem_cons.1 h with rfl | hmem
      · exact .inr (by simp)
      · rcases ih hmem with rfl | hy
        · exact .inl rfl
        · exact .inr (by simp [hy])

theorem upsert_ne_nil (x : α) (xs : List α) : upsert same x xs ≠ [] := by
  cases xs with
  | nil => simp [upsert]
  | cons y xs =>
    rw [upsert]
    split <;> simp

theorem collect_append_singleton (xs : List α) (x : α) :
    collect same (xs ++ [x]) = upsert same x (collect same xs) := by
  simp [collect, upsertAll, List.foldl_append]

theorem mem_of_mem_collect {x : α} {xs : List α} (h : x ∈ collect same xs) : x ∈ xs := by
  induction xs using List.reverseRecOn with
  | nil => simp [collect, upsertAll] at h
  | append_singleton xs y ih =>
    rw [collect_append_singleton] at h
    rcases mem_of_mem_upsert h with rfl | hmem
    · simp
    · simp [ih hmem]

theorem collect_ne_nil {xs : List α} (h : xs ≠ []) : collect same xs ≠ [] := by
  induction xs using List.reverseRecOn with
  | nil => exact absurd rfl h
  | append_singleton xs y _ =>
    rw [collect_append_singleton]
    exact upsert_ne_nil y _

/-- An element that is new goes to the end. -/
theorem upsert_of_new {x : α} {xs : List α} (h : ∀ y ∈ xs, same y x = false) :
    upsert same x xs = xs ++ [x] := by
  induction xs with
  | nil => rfl
  | cons y xs ih =>
    rw [upsert, h y (by simp), if_neg (by simp), ih fun z hz => h z (by simp [hz]),
      List.cons_append]

/-- An element is put where the first element of its identity stands, or at the end. -/
theorem getElem?_upsert (x : α) (xs : List α) (i : Nat) :
    (upsert same x xs)[i]? = if i = xs.findIdx (same · x) then some x else xs[i]? := by
  induction xs generalizing i with
  | nil => cases i <;> simp [upsert]
  | cons y xs ih =>
    rw [upsert, List.findIdx_cons]
    cases hyx : same y x with
    | true => cases i <;> simp
    | false =>
      cases i with
      | zero => simp
      | succ i => simpa using ih i

theorem length_upsert (x : α) (xs : List α) :
    (upsert same x xs).length = if xs.any (same · x) then xs.length else xs.length + 1 := by
  induction xs with
  | nil => simp [upsert]
  | cons y xs ih =>
    rw [upsert]
    cases hyx : same y x with
    | true => simp [hyx]
    | false =>
      simp only [Bool.false_eq_true, if_false, List.length_cons, ih, List.any_cons, hyx,
        Bool.false_or]
      split <;> rfl

/-- An element that is there already stays where it is. -/
theorem upsert_of_mem {x : α} {xs : List α} (hx : x ∈ xs) (hrefl : same x x = true)
    (h : ∀ y ∈ xs, same y x = true → y = x) : upsert same x xs = xs := by
  induction xs with
  | nil => simp at hx
  | cons y xs ih =>
    rw [upsert]
    split
    · rename_i hyx
      rw [h y (by simp) hyx]
    · rename_i hyx
      have hne : x ≠ y := fun he => hyx (he ▸ hrefl)
      rw [ih (List.mem_of_ne_of_mem hne hx) fun z hz => h z (by simp [hz])]

theorem collect_of_apart {xs : List α} (h : Apart same xs) : collect same xs = xs := by
  induction xs using List.reverseRecOn with
  | nil => rfl
  | append_singleton xs x ih =>
    rw [Apart, List.pairwise_append] at h
    rw [collect_append_singleton, ih h.1, upsert_of_new fun y hy => h.2.2 y hy x (by simp)]

theorem upsertAll_append (list xs ys : List α) :
    upsertAll same list (xs ++ ys) = upsertAll same (upsertAll same list xs) ys :=
  List.foldl_append

/-- A list without two elements of one identity might as well have been collected. -/
theorem upsertAll_of_apart {list : List α} (h : Apart same list) (xs : List α) :
    upsertAll same list xs = collect same (list ++ xs) := by
  rw [collect, upsertAll_append, show upsertAll same [] list = list from collect_of_apart h]

/-! ## Distinct elements -/

section

variable [DecidableEq α] {xs ys : List α}

theorem distinct_append_singleton (xs : List α) (x : α) :
    distinct (xs ++ [x]) = if x ∈ distinct xs then distinct xs else distinct xs ++ [x] := by
  rw [distinct, List.foldl_append]
  by_cases hx : x ∈ distinct xs
  · rw [if_pos hx]
    exact if_pos hx
  · rw [if_neg hx]
    exact if_neg hx

theorem mem_distinct {x : α} : x ∈ distinct xs ↔ x ∈ xs := by
  induction xs using List.reverseRecOn with
  | nil => simp [distinct]
  | append_singleton xs y ih =>
    rw [distinct_append_singleton]
    by_cases hy : y ∈ distinct xs
    · rw [if_pos hy, ih, List.mem_append, List.mem_singleton]
      exact ⟨.inl, fun h => h.elim id fun he => he ▸ ih.1 (he ▸ hy)⟩
    · rw [if_neg hy, List.mem_append, List.mem_append, ih]

theorem nodup_distinct (xs : List α) : (distinct xs).Nodup := by
  induction xs using List.reverseRecOn with
  | nil => simp [distinct]
  | append_singleton xs y ih =>
    rw [distinct_append_singleton]
    by_cases hy : y ∈ distinct xs
    · rwa [if_pos hy]
    · rw [if_neg hy, ← List.concat_eq_append]
      exact List.Nodup.concat hy ih

/-- The distinct elements are what is left when later repetitions are erased. -/
theorem distinct_eq_eraseDups [BEq α] [LawfulBEq α] (xs : List α) :
    distinct xs = xs.eraseDups := by
  induction xs using List.reverseRecOn with
  | nil => rfl
  | append_singleton xs x ih =>
    rw [distinct_append_singleton, List.eraseDups_append, ih]
    by_cases hx : x ∈ xs
    · simp [hx, List.removeAll]
    · simp [hx, List.removeAll, List.eraseDups_cons]

theorem distinct_append (xs ys : List α) :
    distinct (xs ++ ys) = distinct xs ++ (distinct ys).filter (· ∉ xs) := by
  induction ys using List.reverseRecOn with
  | nil => simp [distinct]
  | append_singleton ys y ih =>
    rw [← List.append_assoc, distinct_append_singleton, distinct_append_singleton, ih]
    by_cases hys : y ∈ ys
    · simp [mem_distinct, hys]
    · by_cases hxs : y ∈ xs <;> simp [mem_distinct, hys, hxs]

theorem distinct_map {β : Type} [DecidableEq β] {f : α → β} (hf : f.Injective) (xs : List α) :
    distinct (xs.map f) = (distinct xs).map f := by
  induction xs using List.reverseRecOn with
  | nil => rfl
  | append_singleton xs x ih =>
    rw [List.map_append, List.map_singleton, distinct_append_singleton,
      distinct_append_singleton, ih]
    by_cases hx : x ∈ distinct xs
    · rw [if_pos hx, if_pos (List.mem_map_of_mem hx)]
    · rw [if_neg hx, if_neg fun h => hx ((List.mem_map_of_injective hf).1 h), List.map_append,
        List.map_singleton]

/-- Repetitions may be left out before something is taken from each element. -/
theorem distinct_filterMap_distinct {β : Type} [DecidableEq β] (f : α → Option β)
    (xs : List α) : distinct ((distinct xs).filterMap f) = distinct (xs.filterMap f) := by
  induction xs using List.reverseRecOn with
  | nil => rfl
  | append_singleton xs x ih =>
    have hright : distinct ((xs ++ [x]).filterMap f) =
        distinct (xs.filterMap f) ++ (distinct ([x].filterMap f)).filter (· ∉ xs.filterMap f) := by
      rw [List.filterMap_append, distinct_append]
    rw [hright, distinct_append_singleton]
    by_cases hx : x ∈ distinct xs
    · -- what `x` gives is there already
      have hnone : (distinct ([x].filterMap f)).filter (· ∉ xs.filterMap f) = [] := by
        rw [List.filter_eq_nil_iff]
        intro y hy
        obtain ⟨z, hz, hfz⟩ := List.mem_filterMap.1 (mem_distinct.1 hy)
        obtain rfl := List.mem_singleton.1 hz
        simpa using ⟨z, mem_distinct.1 hx, hfz⟩
      rw [if_pos hx, hnone, List.append_nil, ih]
    · rw [if_neg hx, List.filterMap_append, distinct_append, ih]
      simp [mem_distinct]

theorem head?_distinct (xs : List α) : (distinct xs).head? = xs.head? := by
  rw [distinct_eq_eraseDups]
  cases xs with
  | nil => rfl
  | cons x xs => simp [List.eraseDups_cons]

end

/-! ## The last element of each identity -/

section

variable {key : α → κ} (hsame : ∀ x y, same x y = true ↔ key x = key y)

include hsame

theorem same_eq_false_iff {x y : α} : same x y = false ↔ key x ≠ key y := by
  rw [← Bool.not_eq_true, hsame]

theorem apart_iff_nodup {xs : List α} : Apart same xs ↔ (xs.map key).Nodup := by
  rw [Apart, List.Nodup, List.pairwise_map]
  exact ⟨List.Pairwise.imp (same_eq_false_iff hsame).1,
    List.Pairwise.imp (same_eq_false_iff hsame).2⟩

/-- An element takes the place of the one that has its identity, so that no two elements
of one identity come about. -/
theorem apart_upsert (x : α) {xs : List α} (h : Apart same xs) : Apart same (upsert same x xs) := by
  induction xs with
  | nil => simp [upsert, Apart]
  | cons y xs ih =>
    rw [Apart, List.pairwise_cons] at h
    rw [upsert]
    split
    · -- the new element has the identity of the one that it replaces
      rename_i hyx
      rw [Apart, List.pairwise_cons]
      refine ⟨?_, h.2⟩
      intro z hz
      rw [same_eq_false_iff hsame, ← (hsame y x).1 hyx]
      exact (same_eq_false_iff hsame).1 (h.1 z hz)
    · rename_i hyx
      rw [Apart, List.pairwise_cons]
      refine ⟨?_, ih h.2⟩
      intro z hz
      rcases mem_of_mem_upsert hz with rfl | hmem
      · simpa using hyx
      · exact h.1 z hmem

theorem apart_upsertAll {xs : List α} (h : Apart same xs) (more : List α) :
    Apart same (upsertAll same xs more) :=
  List.foldlRecOn (motive := Apart same) more _ h fun _ hlist x _ => apart_upsert hsame x hlist

/-- Collecting leaves one element of each identity, where the identity of an element
is a value that belongs to it. -/
theorem apart_collect (xs : List α) : Apart same (collect same xs) :=
  apart_upsertAll hsame List.Pairwise.nil xs

theorem same_comm (x y : α) : same x y = same y x := by
  rw [Bool.eq_iff_iff, hsame, hsame, eq_comm]

/-- Where no two elements are the same, sameness is equality. -/
theorem eq_of_apart {xs : List α} (h : Apart same xs) {x y : α} (hx : x ∈ xs) (hy : y ∈ xs)
    (hxy : same x y = true) : x = y := by
  by_contra hne
  have hsymm : Std.Symm fun x y => same x y = false :=
    ⟨fun x y hfalse => by rw [same_comm hsame, hfalse]⟩
  exact absurd hxy (by simp [List.Pairwise.forall h hx hy hne])

/-- Where no two elements are the same, an identity stands at one place only. -/
theorem index_eq_of_apart {xs : List α} (h : Apart same xs) {i j : Nat} {x y : α}
    (hx : xs[i]? = some x) (hy : xs[j]? = some y) (hxy : same x y = true) : i = j := by
  obtain ⟨hi, rfl⟩ := List.getElem?_eq_some_iff.1 hx
  obtain ⟨hj, rfl⟩ := List.getElem?_eq_some_iff.1 hy
  have hpairs := List.pairwise_iff_getElem.1 h
  rcases Nat.lt_trichotomy i j with hlt | heq | hgt
  · rw [hpairs i j hi hj hlt] at hxy
    simp at hxy
  · exact heq
  · rw [same_comm hsame, hpairs j i hj hi hgt] at hxy
    simp at hxy

theorem mem_upsert_iff {x y : α} {xs : List α} (h : Apart same xs) :
    y ∈ upsert same x xs ↔ y = x ∨ y ∈ xs ∧ same y x = false := by
  induction xs with
  | nil => simp [upsert]
  | cons z xs ih =>
    rw [Apart, List.pairwise_cons] at h
    rw [upsert]
    split
    · -- the one element that is the same as `x` goes
      rename_i hzx
      have hrest : ∀ w ∈ xs, same w x = false := by
        intro w hw
        rw [← Bool.not_eq_true, hsame, ← (hsame z x).1 hzx, eq_comm, ← hsame, h.1 w hw]
        simp
      grind
    · rename_i hzx
      have hz : same z x = false := by simpa using hzx
      rw [List.mem_cons, ih h.2, List.mem_cons]
      grind

/-- An element is kept if it is the last one of its identity. -/
theorem mem_collect_iff {x : α} {xs : List α} :
    x ∈ collect same xs ↔ (xs.filter fun y => same x y).getLast? = some x := by
  induction xs using List.reverseRecOn with
  | nil => simp [collect, upsertAll]
  | append_singleton xs y ih =>
    rw [collect_append_singleton, mem_upsert_iff hsame (apart_collect hsame xs), ih,
      List.filter_append]
    have hrefl : same x x = true := (hsame x x).2 rfl
    cases hxy : same x y with
    | true => simp [hxy, eq_comm]
    | false =>
      have hne : x ≠ y := fun he => by simp [← he, hrefl] at hxy
      simp [hxy, hne]

/-- An element is kept if none of its identity comes behind it. -/
theorem mem_collect_iff_exists_split {x : α} {xs : List α} :
    x ∈ collect same xs ↔
      ∃ before after, xs = before ++ x :: after ∧ ∀ y ∈ after, same x y = false := by
  induction xs using List.reverseRecOn with
  | nil => simp [collect, upsertAll]
  | append_singleton xs y ih =>
    rw [collect_append_singleton, mem_upsert_iff hsame (apart_collect hsame xs), ih]
    constructor
    · rintro (rfl | ⟨⟨before, after, rfl, hafter⟩, hxy⟩)
      · exact ⟨xs, [], rfl, by simp⟩
      · refine ⟨before, after ++ [y], by simp, fun z hz => ?_⟩
        rcases List.mem_append.1 hz with hz | hz
        · exact hafter z hz
        · rw [List.mem_singleton.1 hz, hxy]
    · rintro ⟨before, after, hsplit, hafter⟩
      cases after using List.reverseRecOn with
      | nil => exact .inl (List.append_singleton_inj.1 hsplit).2.symm
      | append_singleton after z =>
        rw [← List.cons_append, ← List.append_assoc] at hsplit
        obtain ⟨rfl, rfl⟩ := List.append_singleton_inj.1 hsplit
        exact .inr ⟨⟨before, after, rfl, fun w hw => hafter w (by simp [hw])⟩, hafter y (by simp)⟩

theorem map_upsert [DecidableEq κ] (x : α) (xs : List α) :
    (upsert same x xs).map key =
      if key x ∈ xs.map key then xs.map key else xs.map key ++ [key x] := by
  induction xs with
  | nil => simp [upsert]
  | cons y xs ih =>
    rw [upsert]
    by_cases hyx : same y x = true
    · have hkey := (hsame y x).1 hyx
      simp [hyx, hkey]
    · have hkey : ¬ key x = key y := fun he => hyx ((hsame y x).2 he.symm)
      rw [if_neg hyx, List.map_cons, ih, List.map_cons]
      by_cases hmem : key x ∈ xs.map key
      · rw [if_pos hmem, if_pos (List.mem_cons_of_mem _ hmem)]
      · rw [if_neg hmem, if_neg (List.not_mem_cons_of_ne_of_not_mem hkey hmem), List.cons_append]

/-- The identities are kept in the order in which they occur first. -/
theorem map_collect [DecidableEq κ] (xs : List α) :
    (collect same xs).map key = distinct (xs.map key) := by
  induction xs using List.reverseRecOn with
  | nil => rfl
  | append_singleton xs x ih =>
    rw [collect_append_singleton, map_upsert hsame, ih, List.map_append, List.map_singleton,
      distinct_append_singleton]

/-- The last element of each identity, in the order in which the identities occur first. -/
theorem collect_eq_filterMap [DecidableEq κ] (xs : List α) :
    collect same xs =
      (distinct (xs.map key)).filterMap fun k => (xs.filter (key · = k)).getLast? := by
  have hlast : ∀ x ∈ collect same xs, (xs.filter (key · = key x)).getLast? = some x := by
    intro x hx
    rw [← (mem_collect_iff hsame).1 hx]
    congr 1
    apply List.filter_congr
    intro y _
    rw [Bool.eq_iff_iff, hsame, decide_eq_true_eq, eq_comm]
  rw [← map_collect hsame, List.filterMap_map]
  calc collect same xs = (collect same xs).filterMap some := List.filterMap_some.symm
    _ = _ := List.filterMap_congr fun x hx => (hlast x hx).symm

/-- The first element that is kept is the last one with the first identity. -/
theorem head?_collect [DecidableEq κ] (xs : List α) :
    (collect same xs).head? =
      xs.head?.bind fun x => (xs.filter fun y => same x y).getLast? := by
  have hhead := congrArg List.head? (map_collect hsame xs)
  rw [head?_distinct, List.head?_map, List.head?_map] at hhead
  cases hfirst : (collect same xs).head? with
  | none =>
    rw [hfirst, Option.map_none, eq_comm, Option.map_eq_none_iff] at hhead
    rw [hhead]
    rfl
  | some y =>
    rw [hfirst, Option.map_some, eq_comm, Option.map_eq_some_iff] at hhead
    obtain ⟨x, hx, hkey⟩ := hhead
    have hlast := (mem_collect_iff hsame).1 (List.mem_of_mem_head? hfirst)
    have hfilter : (xs.filter fun z => same x z) = xs.filter fun z => same y z := by
      apply List.filter_congr
      intro z _
      rw [Bool.eq_iff_iff, hsame, hsame, hkey]
    rw [hx, Option.bind_some, hfilter, hlast]

/-- Where sameness is equality, collecting leaves the distinct elements. -/
theorem collect_eq_distinct [DecidableEq α] {xs : List α}
    (h : ∀ x ∈ xs, ∀ y ∈ xs, same x y = true → x = y) : collect same xs = distinct xs := by
  induction xs using List.reverseRecOn with
  | nil => rfl
  | append_singleton xs x ih =>
    have hrest := ih fun y hy z hz => h y (by simp [hy]) z (by simp [hz])
    have hnew : ∀ y ∈ distinct xs, same y x = true → y = x := fun y hy =>
      h y (by simp [mem_distinct.1 hy]) x (by simp)
    rw [collect_append_singleton, distinct_append_singleton, hrest]
    by_cases hx : x ∈ distinct xs
    · rw [if_pos hx, upsert_of_mem hx ((hsame x x).2 rfl) hnew]
    · rw [if_neg hx, upsert_of_new]
      intro y hy
      by_contra hyx
      exact hx (hnew y hy (by simpa using hyx) ▸ hy)

end

end Reshape
