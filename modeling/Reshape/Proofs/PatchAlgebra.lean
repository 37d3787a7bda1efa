import Reshape.Proofs.PatchOutcome

/-!
# Patching twice

Two laws for patches that are applied one after the other.  Both come from what becomes of
one member, since documents with distinct keys are known by their lookups.

* Once is enough.  `Document.patch_patch`: the second time a patch finds every change made,
  and so changes nothing, not even the order of members that the first time has moved.
* Either order will do.  `Document.patch_comm`: patches that do not conflict give the same
  value in either order.  `Document.Agrees` leaves the order of members out of account, because
  each patch puts its new members behind those that it finds, and fills the gaps it makes with
  the last ones.
-/

namespace Reshape

namespace Document

variable {target change : Document} {left right : Members}

/-! ## The same patch -/

/-- A change finds itself made. -/
theorem patchMember?_patchMember? {old : Option Document}
    (h : ((old.getD .null).patch change).patch change = (old.getD .null).patch change) :
    patchMember? (patchMember? old (some change)) (some change) =
      patchMember? old (some change) := by
  by_cases hnull : change = .null
  · rw [hnull]
    rfl
  · rw [patchMember?_of_ne_null old hnull, patchMember?_of_ne_null _ hnull, Option.getD_some, h]

/-- Applying a patch again gives the same document, with every member in the same place. -/
theorem patch_patch (htarget : target.Distinct) (hchange : change.Distinct) :
    (target.patch change).patch change = target.patch change := by
  induction hchange generalizing target with
  | @object changes keys_nodup members_distinct ih =>
    have hmembers : patchMembers (patchMembers target.membersOrNone changes) changes =
        patchMembers target.membersOrNone changes := by
      refine patchMembers_eq_self fun entry hentry => ?_
      have hchange : changes.get? entry.1 = some entry.2 :=
        (Members.get?_eq_some_iff keys_nodup).2 hentry
      rw [get?_patchMembers keys_nodup htarget.nodup_keys, hchange]
      exact patchMember?_patchMember? (ih entry hentry (htarget.getD_get? entry.1))
    exact congrArg Document.object hmembers
  | _ => rfl

/-- Removing the first member moves the last one to its place, once. -/
theorem patch_patch_article :
    (article.patch (.object revision)).keysAt [] =
        ["public".toList, "author".toList, "editor".toList, "phone".toList] ∧
      (article.patch (.object revision)).patch (.object revision) =
        article.patch (.object revision) :=
  ⟨rfl, patch_patch distinct_article distinct_revision⟩

/-! ## Agreement up to the order of members -/

/-- The same value up to the order of members: arrays agree item by item, and objects have
the same keys, in any order, and agree under each of them. -/
inductive Agrees : Document → Document → Prop where
  | null : Agrees .null .null
  | bool (value : Bool) : Agrees (.bool value) (.bool value)
  | number (value : Number) : Agrees (.number value) (.number value)
  | string (value : Text) : Agrees (.string value) (.string value)
  | array {left right : List Document} (length_eq : left.length = right.length)
      (items : ∀ (i : Nat) a b, left[i]? = some a → right[i]? = some b → Agrees a b) :
      Agrees (.array left) (.array right)
  | object {left right : Members} (keys_perm : left.keys.Perm right.keys)
      (values : ∀ key a b, left.get? key = some a → right.get? key = some b → Agrees a b) :
      Agrees (.object left) (.object right)

theorem Distinct.agrees (h : target.Distinct) : target.Agrees target := by
  induction h with
  | null => exact .null
  | bool value => exact .bool value
  | number value => exact .number value
  | string value => exact .string value
  | array _ ih =>
    refine .array rfl fun i a b ha hb => ?_
    obtain rfl : a = b := Option.some.inj (ha.symm.trans hb)
    exact ih a (List.mem_of_getElem? ha)
  | object _ _ ih =>
    refine .object (.refl _) fun key a b ha hb => ?_
    obtain rfl : a = b := Option.some.inj (ha.symm.trans hb)
    exact ih (key, a) (mem_of_lookup ha)

theorem Distinct.rel_get? (h : target.Distinct) (key : Text) :
    Option.Rel Agrees (Members.get? target.membersOrNone key)
      (Members.get? target.membersOrNone key) := by
  cases hvalue : Members.get? target.membersOrNone key with
  | none => exact .none
  | some value => exact .some (h.of_get? hvalue).agrees

/-- Objects with distinct keys agree if their lookups do. -/
theorem Agrees.of_get? (hleft : left.keys.Nodup) (hright : right.keys.Nodup)
    (h : ∀ key, Option.Rel Agrees (left.get? key) (right.get? key)) :
    Agrees (.object left) (.object right) := by
  refine .object ((List.perm_ext_iff_of_nodup hleft hright).2 fun key => ?_) ?_
  · have hvalues := h key
    rw [← not_iff_not, ← Members.get?_eq_none_iff, ← Members.get?_eq_none_iff]
    generalize left.get? key = a, right.get? key = b at hvalues
    cases hvalues <;> simp
  · intro key a b ha hb
    have hvalues := h key
    rw [ha, hb] at hvalues
    cases hvalues with
    | some hagree => exact hagree

end Document

/-! ## Patches that do not conflict -/

/-- Under every key that both have, both have an object, and these are compatible in turn. -/
inductive Members.Compatible : Members → Members → Prop where
  | intro {left right : Members}
      (shared : ∀ key a b, left.get? key = some a → right.get? key = some b →
        ∃ lefts rights, a = .object lefts ∧ b = .object rights)
      (nested : ∀ key lefts rights, left.get? key = some (.object lefts) →
        right.get? key = some (.object rights) → Compatible lefts rights) :
      Compatible left right

theorem Members.Compatible.of_mem {left right : Members}
    (h : ∀ entry ∈ left, right.get? entry.1 = none ∨
      ∃ lefts rights, entry.2 = .object lefts ∧ right.get? entry.1 = some (.object rights) ∧
        Compatible lefts rights) : left.Compatible right := by
  have hshared : ∀ key a b, left.get? key = some a → right.get? key = some b →
      ∃ lefts rights, a = .object lefts ∧ b = .object rights ∧ Compatible lefts rights := by
    intro key a b ha hb
    rcases h _ (mem_of_lookup ha) with hnone | ⟨lefts, rights, rfl, hright, hbelow⟩
    · rw [hnone] at hb
      cases hb
    · obtain rfl : .object rights = b := Option.some.inj (hright.symm.trans hb)
      exact ⟨lefts, rights, rfl, rfl, hbelow⟩
  constructor
  · intro key a b ha hb
    obtain ⟨lefts, rights, hlefts, hrights, -⟩ := hshared key a b ha hb
    exact ⟨lefts, rights, hlefts, hrights⟩
  · intro key lefts rights ha hb
    obtain ⟨_, _, hlefts, hrights, hbelow⟩ := hshared key _ _ ha hb
    rwa [Document.object.inj hlefts, Document.object.inj hrights]

namespace Document

variable {target : Document} {left right : Members}

/-- A member is changed by both patches, one after the other. -/
theorem get?_patchMembers_patchMembers {members : Members} (hleft : left.keys.Nodup)
    (hright : right.keys.Nodup) (hmembers : members.keys.Nodup) (key : Text) :
    Members.get? (patchMembers (patchMembers members left) right) key =
      patchMember? (patchMember? (members.get? key) (left.get? key)) (right.get? key) := by
  rw [get?_patchMembers hright (nodup_keys_patchMembers hmembers left),
    get?_patchMembers hleft hmembers]

/-- Patches that do not conflict may be applied in either order. -/
theorem patch_comm (htarget : target.Distinct) (hleft : (object left).Distinct)
    (hright : (object right).Distinct) (h : left.Compatible right) :
    ((target.patch (.object left)).patch (.object right)).Agrees
      ((target.patch (.object right)).patch (.object left)) := by
  induction h generalizing target with
  | @intro left right shared nested ih =>
    have hleftKeys : left.keys.Nodup := hleft.nodup_keys
    have hrightKeys : right.keys.Nodup := hright.nodup_keys
    have hkeys := htarget.nodup_keys
    refine Agrees.of_get? (htarget.patch hleft |>.patch hright).nodup_keys
      (htarget.patch hright |>.patch hleft).nodup_keys fun key => ?_
    show Option.Rel Agrees (Members.get? (patchMembers (patchMembers _ left) right) key)
      (Members.get? (patchMembers (patchMembers _ right) left) key)
    rw [get?_patchMembers_patchMembers hleftKeys hrightKeys hkeys,
      get?_patchMembers_patchMembers hrightKeys hleftKeys hkeys]
    cases hl : left.get? key with
    | none =>
      have hsame := (htarget.patch hright).rel_get? key
      rwa [patch, membersOrNone, get?_patchMembers hrightKeys hkeys] at hsame
    | some a =>
      cases hr : right.get? key with
      | none =>
        have hsame := (htarget.patch hleft).rel_get? key
        rwa [patch, membersOrNone, get?_patchMembers hleftKeys hkeys, hl] at hsame
      | some b =>
        obtain ⟨lefts, rights, rfl, rfl⟩ := shared key a b hl hr
        exact .some (ih key lefts rights hl hr (htarget.getD_get? key) (hleft.of_get? hl)
          (hright.of_get? hr))

/-- Changes that share an object at two levels with `revision`. -/
def reply : Members :=
  [("isbn".toList, .string "0".toList),
   ("author".toList, .object [("family".toList, .null),
     ("role".toList, .object [("team".toList, .bool true)])])]

theorem distinct_reply : (object reply).Distinct := by
  refine .object (by decide) ?_
  simp only [reply, List.forall_mem_cons]
  refine ⟨.string _, .object (by decide) ?_, by simp⟩
  simp only [List.forall_mem_cons]
  refine ⟨.null, .object (by decide) ?_, by simp⟩
  simp only [List.forall_mem_cons]
  exact ⟨.bool _, by simp⟩

theorem compatible_revision_reply : revision.Compatible reply := by
  refine .of_mem ?_
  simp only [revision, List.forall_mem_cons]
  refine ⟨.inl rfl, .inl rfl, .inr ⟨_, _, rfl, rfl, .of_mem ?_⟩, by simp⟩
  simp only [List.forall_mem_cons]
  refine ⟨.inl rfl, .inr ⟨_, _, rfl, rfl, .of_mem ?_⟩, by simp⟩
  simp only [List.forall_mem_cons]
  exact ⟨.inl rfl, .inl rfl, by simp⟩

/-- The two results have their members in different orders. -/
theorem patch_comm_article :
    ((article.patch (.object revision)).patch (.object reply)).keysAt [] =
        ["public".toList, "author".toList, "editor".toList, "phone".toList, "isbn".toList] ∧
      ((article.patch (.object reply)).patch (.object revision)).keysAt [] =
        ["isbn".toList, "author".toList, "editor".toList, "public".toList, "phone".toList] ∧
      ((article.patch (.object revision)).patch (.object reply)).Agrees
        ((article.patch (.object reply)).patch (.object revision)) :=
  ⟨rfl, rfl, patch_comm distinct_article distinct_revision distinct_reply
    compatible_revision_reply⟩

end Document

end Reshape
