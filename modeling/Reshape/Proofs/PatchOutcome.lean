import Reshape.Proofs.Patch

/-!
# What a patch does, at every key and at every level

Lookups give the members of a patched object, but neither tell where its members stand nor
what is far below them.  Both follow from one step, from a place to the place below it.

* Nulls.  A patch says `null` to remove a member, so it cannot put one: `at?_eq_null_of_patch`
  says that every `null` in the result was there before.
* Order.  Removing a member moves another one.  A patch that removes nothing moves nothing:
  `keys_at?_patch` says that every object of the result has its old keys in their old places,
  and then the new keys of the patch.
* `Document.patch_memberwise` is all that a patch does to a document.
-/

namespace Reshape

namespace Document

/-- The keys of the object at a place, and none if there is no object. -/
def keysAt (place : List Text) (d : Document) : List Text :=
  Members.keys ((d.at? place).getD .null).membersOrNone

/-- No place has a `null`.  What stands inside an array is at no place. -/
def IsNullFree (d : Document) : Prop :=
  ∀ place, d.at? place ≠ some .null

variable {target change : Document} {changes : Members}

/-! ## Places below a member -/

/-- Below a missing member there is no more than below a `null`. -/
theorem at?_getD_null {old : Option Document} {place : List Text} (hplace : place ≠ []) :
    (old.getD .null).at? place = old.bind (at? place) := by
  cases old with
  | some value => rfl
  | none =>
    obtain ⟨key, rest, rfl⟩ := List.exists_cons_of_ne_nil hplace
    rfl

theorem keysAt_cons (key : Text) (place : List Text) (d : Document) :
    d.keysAt (key :: place) = ((Members.get? d.membersOrNone key).getD .null).keysAt place := by
  by_cases hplace : place = []
  · subst hplace
    rw [keysAt, keysAt, at?, at?]
    cases Members.get? d.membersOrNone key <;> rfl
  · rw [keysAt, keysAt, at?_getD_null hplace, at?]

theorem IsNullFree.of_get? (h : (Document.object changes).IsNullFree) {key : Text}
    (hchange : changes.get? key = some change) : change.IsNullFree := by
  intro place hnull
  have hbelow : (Document.object changes).at? (key :: place) = change.at? place := by
    rw [at?, membersOrNone, hchange, Option.bind_some]
  exact h (key :: place) (hbelow.trans hnull)

theorem IsNullFree.leaf (hnull : change ≠ .null) (hleaf : change.membersOrNone = []) :
    change.IsNullFree := by
  intro place hplace
  cases place with
  | nil => exact hnull (Option.some.inj hplace)
  | cons key place =>
    rw [at?, hleaf] at hplace
    simp [Members.get?] at hplace

/-- An object has no `null` at a place if none of its members has. -/
theorem IsNullFree.object (h : ∀ entry ∈ changes, entry.2.IsNullFree) :
    (Document.object changes).IsNullFree := by
  intro place hnull
  cases place with
  | nil => simp [at?] at hnull
  | cons key place =>
    obtain ⟨change, hchange, hbelow⟩ := Option.bind_eq_some_iff.1 hnull
    exact h _ (mem_of_lookup hchange) place hbelow

/-- One step to a place of the result: the patch leaves the member there as it is, or
patches it. -/
theorem at?_patch_cons_cases (htarget : target.Distinct) (hchange : change.Distinct) {key : Text}
    {place : List Text} {found : Document}
    (h : (target.patch change).at? (key :: place) = some found) :
    ∃ changes : Members, change = .object changes ∧
      ((changes.get? key = none ∧ target.at? (key :: place) = some found) ∨
        ∃ next, changes.get? key = some next ∧ next ≠ .null ∧
          (patch ((Members.get? target.membersOrNone key).getD .null) next).at? place =
            some found) := by
  cases change with
  | object changes =>
    have hnodup : (Members.keys changes).Nodup := hchange.nodup_keys
    rw [at?_patch_cons hnodup htarget, Option.bind_eq_some_iff] at h
    obtain ⟨value, hvalue, hbelow⟩ := h
    refine ⟨changes, rfl, ?_⟩
    rcases patchMember?_eq_some_iff.1 hvalue with ⟨hnone, hold⟩ | ⟨next, hnext, hne, rfl⟩
    · left
      rw [at?, hold, Option.bind_some]
      exact ⟨hnone, hbelow⟩
    · exact .inr ⟨next, hnext, hne, hbelow⟩
  | _ => simp [patch, at?, membersOrNone, Members.get?] at h

/-! ## Nulls -/

theorem patch_ne_null (target : Document) (h : change ≠ .null) : target.patch change ≠ .null := by
  cases change with
  | object changes => simp [patch]
  | _ => exact h

/-- A `null` in the result was at its place before. -/
theorem at?_eq_null_of_patch (htarget : target.Distinct) (hchange : change.Distinct)
    (hnull : change ≠ .null) {place : List Text}
    (h : (target.patch change).at? place = some .null) : target.at? place = some .null := by
  induction place generalizing target change with
  | nil => exact absurd (Option.some.inj h) (patch_ne_null target hnull)
  | cons key place ih =>
    obtain ⟨changes, rfl, ⟨-, hsame⟩ | ⟨next, hnext, hne, hbelow⟩⟩ :=
      at?_patch_cons_cases htarget hchange h
    · exact hsame
    · -- the member that the change leaves is not itself a `null`
      have hplace : place ≠ [] := by
        rintro rfl
        exact patch_ne_null _ hne (Option.some.inj hbelow)
      rw [at?, ← at?_getD_null hplace]
      exact ih (htarget.getD_get? key) (hchange.of_get? hnext) hne hbelow

/-! ## Order -/

/-- Changes that remove nothing keep the old keys in their places and put the new ones
behind them. -/
theorem keys_patchMembers {members : Members} (hchanges : changes.keys.Nodup)
    (hnull : ∀ entry ∈ changes, entry.2 ≠ .null) :
    (patchMembers members changes).keys =
      members.keys ++ changes.keys.filter (· ∉ members.keys) := by
  induction changes generalizing members with
  | nil => simp [patchMembers, Members.keys]
  | cons entry changes ih =>
    obtain ⟨key, change⟩ := entry
    rw [List.forall_mem_cons] at hnull
    have hkeys : Members.keys ((key, change) :: changes) = key :: Members.keys changes := rfl
    rw [hkeys, List.nodup_cons] at hchanges
    rw [patchMembers_of_ne_null members key hnull.1, ih hchanges.2 hnull.2, hkeys]
    by_cases hmem : key ∈ members.keys
    · rw [Members.keys_insert_of_mem hmem, List.filter_cons_of_neg (by simpa using hmem)]
    · have hinsert : ∀ value, (members.insert key value).keys = members.keys ++ [key] := by
        intro value
        simp [Members.insert_of_notMem hmem, Members.keys]
      -- no later change is for the key that has just been put
      have hlater : (Members.keys changes).filter (· ∉ members.keys ++ [key]) =
          (Members.keys changes).filter (· ∉ members.keys) := by
        apply List.filter_congr
        intro other hother
        have hne : other ≠ key := fun heq => hchanges.1 (heq ▸ hother)
        simp [hne]
      rw [hinsert, hlater, List.filter_cons_of_pos (by simpa using hmem), List.append_assoc,
        List.singleton_append]

/-- Where a patch without nulls is applied, each object of the result has its old keys in
their places and the new ones behind them, in the order of the patch. -/
theorem keys_at?_patch (htarget : target.Distinct) (hchange : change.Distinct)
    (hfree : change.IsNullFree) {place : List Text} {level : Members}
    (h : (target.patch change).at? place = some (.object level)) :
    level.keys = target.keysAt place ++ (change.keysAt place).filter (· ∉ target.keysAt place) := by
  induction place generalizing target change with
  | nil =>
    cases change with
    | object changes =>
      have hlevel : patchMembers target.membersOrNone changes = level := by
        simpa [at?, patch] using h
      have hnull : ∀ entry ∈ changes, entry.2 ≠ .null := by
        intro entry hentry heq
        have hget := (Members.get?_eq_some_iff hchange.nodup_keys).2 hentry
        exact hfree.of_get? hget [] (congrArg some heq)
      rw [← hlevel]
      exact keys_patchMembers hchange.nodup_keys hnull
    | _ => simp [at?, patch] at h
  | cons key place ih =>
    obtain ⟨changes, rfl, ⟨hnone, hsame⟩ | ⟨next, hnext, -, hbelow⟩⟩ :=
      at?_patch_cons_cases htarget hchange h
    · -- the patch has no such key, so it names nothing at this place
      have hnothing : (object changes).keysAt (key :: place) = [] := by
        rw [keysAt_cons, membersOrNone, hnone]
        cases place <;> rfl
      rw [hnothing, keysAt, hsame]
      simp [membersOrNone]
    · have hnextKeys : (object changes).keysAt (key :: place) = next.keysAt place := by
        rw [keysAt_cons, membersOrNone, hnext, Option.getD_some]
      rw [hnextKeys, keysAt_cons]
      exact ih (htarget.getD_get? key) (hchange.of_get? hnext) (hfree.of_get? hnext) hbelow

/-! ## The outcome -/

/-- What patching a document with an object gives.  A document that is not an object counts
as an object without members, and a missing member as `null`.

* The result is an object, and its keys are distinct at every level.
* A member that is changed to `null` is gone, one that is changed to anything else is
  patched in turn, and one that is not changed stays.
* Every `null` at a place of the result was at that place before.
* If there is no `null` at any place of the patch, each object of the result has its old keys
  in their places, and then the new ones in the order of the patch. -/
theorem patch_memberwise (htarget : target.Distinct) (hchanges : (object changes).Distinct) :
    ∃ members : Members, target.patch (.object changes) = .object members ∧
      (object members).Distinct ∧
      (∀ key,
        (changes.get? key = some .null → members.get? key = none) ∧
        (∀ change, changes.get? key = some change → change ≠ .null →
          members.get? key =
            some (patch ((Members.get? target.membersOrNone key).getD .null) change)) ∧
        (changes.get? key = none →
          members.get? key = Members.get? target.membersOrNone key)) ∧
      (∀ place, (object members).at? place = some .null → target.at? place = some .null) ∧
      ((object changes).IsNullFree → ∀ place (level : Members),
        (object members).at? place = some (.object level) →
          level.keys = target.keysAt place ++
            ((object changes).keysAt place).filter (· ∉ target.keysAt place)) := by
  have hnodup : changes.keys.Nodup := hchanges.nodup_keys
  refine ⟨patchMembers target.membersOrNone changes, rfl, htarget.patch hchanges, ?_, ?_, ?_⟩
  · intro key
    rw [get?_patchMembers hnodup htarget.nodup_keys]
    refine ⟨fun hnull => ?_, fun change hchange hne => ?_, fun hnone => ?_⟩
    · rw [hnull]
      rfl
    · rw [hchange, patchMember?_of_ne_null _ hne]
    · rw [hnone]
      rfl
  · intro place hnull
    exact at?_eq_null_of_patch htarget hchanges (by simp) hnull
  · intro hfree place level hlevel
    exact keys_at?_patch htarget hchanges hfree hlevel

/-- A document with a `null`, and objects at two levels. -/
def article : Document :=
  .object
    [("title".toList, .string "Goodbye".toList),
     ("author".toList, .object [("given".toList, .string "J".toList),
       ("family".toList, .string "D".toList)]),
     ("editor".toList, .null),
     ("public".toList, .bool false)]

theorem distinct_article : article.Distinct := by
  refine .object (by decide) ?_
  simp only [List.forall_mem_cons]
  refine ⟨.string _, .object (by decide) ?_, .null, .bool _, by simp⟩
  simp only [List.forall_mem_cons]
  exact ⟨.string _, .string _, by simp⟩

/-- Changes that remove a member, put one, and do both below a third and below a new
member. -/
def revision : Members :=
  [("title".toList, .null),
   ("phone".toList, .string "+01".toList),
   ("author".toList, .object [("given".toList, .null),
     ("role".toList, .object [("since".toList, .null), ("kind".toList, .array [.null])])])]

theorem distinct_revision : (object revision).Distinct := by
  refine .object (by decide) ?_
  simp only [revision, List.forall_mem_cons]
  refine ⟨.null, .string _, .object (by decide) ?_, by simp⟩
  simp only [List.forall_mem_cons]
  refine ⟨.null, .object (by decide) ?_, by simp⟩
  simp only [List.forall_mem_cons]
  exact ⟨.null, .array (by simpa using .null), by simp⟩

/-- Changes that remove nothing. -/
def extension : Members :=
  [("notes".toList, .object []),
   ("author".toList, .object [("middle".toList, .bool true), ("family".toList, .array [.null])]),
   ("editor".toList, .object [("name".toList, .string "E".toList)])]

theorem distinct_extension : (object extension).Distinct := by
  refine .object (by decide) ?_
  simp only [extension, List.forall_mem_cons]
  refine ⟨.object (by decide) (by simp), .object (by decide) ?_, .object (by decide) ?_, by simp⟩
  · simp only [List.forall_mem_cons]
    exact ⟨.bool _, .array (by simpa using .null), by simp⟩
  · simp only [List.forall_mem_cons]
    exact ⟨.string _, by simp⟩

theorem isNullFree_extension : (object extension).IsNullFree := by
  refine .object ?_
  simp only [extension, List.forall_mem_cons]
  refine ⟨.object (by simp), .object ?_, .object ?_, by simp⟩
  · simp only [List.forall_mem_cons]
    exact ⟨.leaf (by simp) rfl, .leaf (by simp) rfl, by simp⟩
  · simp only [List.forall_mem_cons]
    exact ⟨.leaf (by simp) rfl, by simp⟩

theorem patch_memberwise_article :
    (∃ members : Members, article.patch (.object revision) = .object members ∧
      members.get? "title".toList = none ∧
      members.get? "author".toList =
        some (.object [("family".toList, .string "D".toList),
          ("role".toList, .object [("kind".toList, .array [.null])])]) ∧
      members.get? "public".toList = some (.bool false) ∧
      (object members).at? ["editor".toList] = some .null ∧
      article.at? ["editor".toList] = some .null) ∧
    ∃ members : Members, article.patch (.object extension) = .object members ∧
      members.keys = ["title".toList, "author".toList, "editor".toList, "public".toList,
        "notes".toList] ∧
      ∃ author : Members, (object members).at? ["author".toList] = some (.object author) ∧
        author.keys = ["given".toList, "family".toList, "middle".toList] := by
  constructor
  · obtain ⟨members, hpatch, -, hkeys, hnulls, -⟩ :=
      patch_memberwise distinct_article distinct_revision
    have hauthor := (hkeys "author".toList).2.1 _ rfl (by simp)
    have heditor : (object members).at? ["editor".toList] = some .null :=
      congrArg (Option.bind · (at? [])) ((hkeys "editor".toList).2.2 rfl)
    exact ⟨members, hpatch, (hkeys _).1 rfl, hauthor, (hkeys _).2.2 rfl, heditor,
      hnulls _ heditor⟩
  · obtain ⟨members, hpatch, -, hkeys, -, horder⟩ :=
      patch_memberwise distinct_article distinct_extension
    have hlevels := horder isNullFree_extension
    have hauthor := congrArg (Option.bind · (at? [])) ((hkeys "author".toList).2.1 _ rfl (by simp))
    exact ⟨members, hpatch, hlevels [] members rfl, _, hauthor,
      hlevels ["author".toList] _ hauthor⟩

end Document

end Reshape
