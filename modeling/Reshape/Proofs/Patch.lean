import Reshape.Document.Written
import Reshape.Proofs.Members

/-!
# Patches, member by member

A patch is applied one change after the other, and a change may move the members
that it does not name.  On documents with distinct keys the order does not matter
for lookups: `Document.get?_patchMembers` gives every member of the result from the
member before and the change for its key alone, and `Document.patchMember?_eq_some_iff`
says what a member can be.  From these follow `Document.patchMembers_eq_self`, on
changes that are made already, and `Document.Distinct.patch`, on the keys of the
result.  Documents that were read have distinct keys, which is
`Document.distinct_of_ofBytes?`.
-/

namespace Reshape

namespace Document

/-! ## Distinct keys -/

/-- Every object in the document has distinct keys. -/
inductive Distinct : Document → Prop where
  | null : Distinct .null
  | bool (value : Bool) : Distinct (.bool value)
  | number (value : Number) : Distinct (.number value)
  | string (value : Text) : Distinct (.string value)
  | array {items : List Document} (items_distinct : ∀ item ∈ items, Distinct item) :
      Distinct (.array items)
  | object {members : Members} (keys_nodup : members.keys.Nodup)
      (members_distinct : ∀ entry ∈ members, Distinct entry.2) : Distinct (.object members)

namespace Distinct

variable {document : Document}

theorem nodup_keys (h : document.Distinct) : (Members.keys document.membersOrNone).Nodup := by
  cases h with
  | object keys_nodup _ => exact keys_nodup
  | _ => exact List.nodup_nil

theorem of_get? (h : document.Distinct) {key : Text} {value : Document}
    (hvalue : Members.get? document.membersOrNone key = some value) : value.Distinct := by
  have hmem := mem_of_lookup hvalue
  cases h with
  | object _ members_distinct => exact members_distinct _ hmem
  | _ => simp [membersOrNone] at hmem

end Distinct

end Document

namespace Written

mutual

theorem distinct_document? {levels : Nat} : ∀ {written : Written} {document : Document},
    written.document? levels = some document → document.Distinct
  | .null, document, h => by
    obtain rfl : Document.null = document := by simpa [document?] using h
    exact .null
  | .bool value, document, h => by
    obtain rfl : Document.bool value = document := by simpa [document?] using h
    exact .bool value
  | .number literal, document, h => by
    obtain ⟨value, -, rfl⟩ := Option.map_eq_some_iff.1 h
    exact .number value
  | .string content, document, h => by
    obtain ⟨value, -, rfl⟩ := Option.map_eq_some_iff.1 h
    exact .string value
  | .array items, document, h => by
    rw [document?] at h
    split at h
    · simp at h
    · obtain ⟨documents, hdocuments, rfl⟩ := Option.map_eq_some_iff.1 h
      exact .array (distinct_documents? hdocuments)
  | .object members, document, h => by
    rw [document?] at h
    split at h
    · simp at h
    · obtain ⟨pairs, hpairs, rfl⟩ := Option.map_eq_some_iff.1 h
      exact .object (Members.nodup_keys_ofList pairs)
        fun entry hentry => distinct_pairs? hpairs entry (Members.mem_of_mem_ofList hentry)

theorem distinct_documents? {levels : Nat} : ∀ {items : List Written} {documents : List Document},
    documents? levels items = some documents → ∀ document ∈ documents, document.Distinct
  | [], documents, h => by
    obtain rfl : [] = documents := by simpa [documents?] using h
    simp
  | item :: items, documents, h => by
    simp only [documents?, Option.bind_eq_bind, Option.bind_eq_some_iff] at h
    obtain ⟨first, hfirst, rest, hrest, heq⟩ := h
    obtain rfl : first :: rest = documents := by simpa using heq
    intro document hdocument
    rcases List.mem_cons.1 hdocument with rfl | hdocument
    · exact distinct_document? hfirst
    · exact distinct_documents? hrest document hdocument

theorem distinct_pairs? {levels : Nat} : ∀ {members : List (Option Text × Written)}
    {pairs : List (Text × Document)}, pairs? levels members = some pairs →
    ∀ entry ∈ pairs, entry.2.Distinct
  | [], pairs, h => by
    obtain rfl : [] = pairs := by simpa [pairs?] using h
    simp
  | (key, value) :: members, pairs, h => by
    simp only [pairs?, Option.bind_eq_bind, Option.bind_eq_some_iff] at h
    obtain ⟨key, -, first, hfirst, rest, hrest, heq⟩ := h
    obtain rfl : (key, first) :: rest = pairs := by simpa using heq
    intro entry hentry
    rcases List.mem_cons.1 hentry with rfl | hentry
    · exact distinct_document? hfirst
    · exact distinct_pairs? hrest entry hentry

end

end Written

namespace Document

/-- A document that was read has distinct keys. -/
theorem distinct_of_ofBytes? {bytes : ByteArray} {document : Document}
    (h : ofBytes? bytes = some document) : document.Distinct := by
  obtain ⟨text, -, hread⟩ := Option.bind_eq_some_iff.1 h
  obtain ⟨written, -, hdocument⟩ := Option.bind_eq_some_iff.1 hread
  exact Written.distinct_document? hdocument

/-! ## One member -/

/-- What becomes of a member, given the change for its key. -/
def patchMember? (old : Option Document) : Option Document → Option Document
  | none => old
  | some .null => none
  | some change => some (patch (old.getD .null) change)

theorem patchMember?_of_ne_null (old : Option Document) {change : Document}
    (h : change ≠ .null) :
    patchMember? old (some change) = some (patch (old.getD .null) change) := by
  cases change with
  | null => exact absurd rfl h
  | _ => rfl

theorem patchMembers_of_ne_null (members : Members) (key : Text) {change : Document}
    (h : change ≠ .null) (rest : Members) :
    patchMembers members ((key, change) :: rest) =
      patchMembers (members.insert key (patch ((members.get? key).getD .null) change)) rest := by
  cases change with
  | null => exact absurd rfl h
  | _ => rfl

/-- A member of the result comes from the member before and from the change for its
key. -/
theorem get?_patchMembers {changes members : Members} (hchanges : changes.keys.Nodup)
    (hmembers : members.keys.Nodup) (key : Text) :
    Members.get? (patchMembers members changes) key =
      patchMember? (members.get? key) (changes.get? key) := by
  induction changes generalizing members with
  | nil => rfl
  | cons entry rest ih =>
    obtain ⟨first, change⟩ := entry
    rw [Members.keys, List.map_cons, List.nodup_cons] at hchanges
    have hfirst : Members.get? rest first = none := Members.get?_eq_none_iff.2 hchanges.1
    by_cases hnull : change = .null
    · subst hnull
      rw [patchMembers, ih hchanges.2 (Members.nodup_keys_remove hmembers first),
        Members.get?_remove hmembers, Members.get?_cons]
      by_cases hkey : key = first
      · rw [if_pos hkey, if_pos hkey, hkey, hfirst]
        rfl
      · rw [if_neg hkey, if_neg hkey]
    · rw [patchMembers_of_ne_null members first hnull,
        ih hchanges.2 (Members.nodup_keys_insert hmembers first _), Members.get?_insert,
        Members.get?_cons]
      by_cases hkey : key = first
      · rw [if_pos hkey, if_pos hkey, hkey, hfirst, patchMember?_of_ne_null _ hnull]
        rfl
      · rw [if_neg hkey, if_neg hkey]

/-- A member of the result is the member before, if there is no change for it, or it is
patched by a change that does not remove it. -/
theorem patchMember?_eq_some_iff {old change? : Option Document} {value : Document} :
    patchMember? old change? = some value ↔
      (change? = none ∧ old = some value) ∨
        ∃ change, change? = some change ∧ change ≠ .null ∧ patch (old.getD .null) change = value := by
  cases change? with
  | none => simp [patchMember?]
  | some change =>
    by_cases hnull : change = .null
    · simp [hnull, patchMember?]
    · simp [patchMember?_of_ne_null old hnull, hnull]

/-- Changes that leave each member they name as it is change nothing. -/
theorem patchMembers_eq_self {members changes : Members}
    (h : ∀ entry ∈ changes,
      patchMember? (members.get? entry.1) (some entry.2) = members.get? entry.1) :
    patchMembers members changes = members := by
  induction changes with
  | nil => rfl
  | cons entry changes ih =>
    have hrest := ih fun other hother => h other (by simp [hother])
    have hfirst := h entry (by simp)
    obtain ⟨key, change⟩ := entry
    by_cases hnull : change = .null
    · subst hnull
      rw [patchMembers, Members.remove_of_notMem (Members.get?_eq_none_iff.1 hfirst.symm), hrest]
    · rw [patchMember?_of_ne_null _ hnull] at hfirst
      rw [patchMembers_of_ne_null members key hnull, Members.insert_of_get? hfirst.symm, hrest]

/-! ## Whole documents -/

variable {target change : Document} {changes : Members}

/-- What a place of the result has comes from the member and the change for its first
key. -/
theorem at?_patch_cons (hchanges : changes.keys.Nodup) (htarget : target.Distinct) (key : Text)
    (place : List Text) :
    (target.patch (.object changes)).at? (key :: place) =
      (patchMember? (Members.get? target.membersOrNone key) (changes.get? key)).bind
        (at? place) := by
  rw [← get?_patchMembers hchanges htarget.nodup_keys key]
  rfl

theorem nodup_keys_patchMembers {members : Members} (h : members.keys.Nodup) (changes : Members) :
    (patchMembers members changes).keys.Nodup := by
  induction changes generalizing members with
  | nil => exact h
  | cons entry changes ih =>
    obtain ⟨key, change⟩ := entry
    by_cases hnull : change = .null
    · subst hnull
      exact ih (Members.nodup_keys_remove h key)
    · rw [patchMembers_of_ne_null members key hnull]
      exact ih (Members.nodup_keys_insert h key _)

/-- A member, or `null` in its place, has distinct keys. -/
theorem Distinct.getD_get? (h : target.Distinct) (key : Text) :
    ((Members.get? target.membersOrNone key).getD .null).Distinct := by
  cases hold : Members.get? target.membersOrNone key with
  | none => exact .null
  | some old => exact h.of_get? hold

/-- Patching keeps keys distinct. -/
theorem Distinct.patch (htarget : target.Distinct) (hchange : change.Distinct) :
    (target.patch change).Distinct := by
  induction hchange generalizing target with
  | null => exact .null
  | bool value => exact .bool value
  | number value => exact .number value
  | string value => exact .string value
  | array items_distinct _ => exact .array items_distinct
  | @object changes keys_nodup members_distinct ih =>
    have hnodup := nodup_keys_patchMembers htarget.nodup_keys changes
    refine .object hnodup fun entry hentry => ?_
    have hvalue := (Members.get?_eq_some_iff hnodup).2 hentry
    rw [get?_patchMembers keys_nodup htarget.nodup_keys, patchMember?_eq_some_iff] at hvalue
    rcases hvalue with ⟨-, hold⟩ | ⟨change, hchange, -, hpatch⟩
    · exact htarget.of_get? hold
    · rw [← hpatch]
      exact ih _ (mem_of_lookup hchange) (htarget.getD_get? entry.1)

end Document

end Reshape
