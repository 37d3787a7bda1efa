import Mathlib
import Reshape.Text.Blank

/-!
# Trimming

What trimming leaves of a text.  Trimming the end is `List.rdropWhile`, so the
library has most of the facts; those below are about what a text starts and ends
with.  `Text.trim_append_blanks` and `Text.skipBlanks_append` are what the proofs
about the reader of expressions use.
-/

namespace Reshape

namespace Text

/-- Trimming stops at a character that stays. -/
theorem trimEnd_append_cons {p : Char → Bool} {c : Char} (h : p c = false) (left right : Text) :
    trimEnd p (left ++ c :: right) = left ++ c :: trimEnd p right := by
  unfold trimEnd
  rw [List.reverse_append, List.reverse_cons, List.append_assoc, List.dropWhile_append]
  cases hright : right.reverse.dropWhile p with
  | nil => simp [h]
  | cons d rest => simp

theorem trimStart_eq_self {p : Char → Bool} {text : Text} (h : ∀ c ∈ text.head?, p c = false) :
    trimStart p text = text := by
  cases text with
  | nil => rfl
  | cons c rest => simp [trimStart, h c (by simp)]

theorem trimEnd_eq_self_iff {p : Char → Bool} {text : Text} :
    trimEnd p text = text ↔ ∀ c ∈ text.getLast?, p c = false := by
  rw [show trimEnd p text = text.rdropWhile p from rfl, List.rdropWhile_eq_self_iff]
  constructor
  · intro h c hc
    obtain ⟨hne, rfl⟩ := List.mem_getLast?_eq_getLast hc
    simpa using h hne
  · intro h hne
    simpa using h _ (List.getLast?_eq_some_getLast hne)

theorem isPrefix_trimEnd (p : Char → Bool) (text : Text) : trimEnd p text <+: text :=
  List.rdropWhile_prefix p text

theorem trimBoth_sublist (p : Char → Bool) (text : Text) : (trimBoth p text).Sublist text :=
  (isPrefix_trimEnd p _).sublist.trans (List.dropWhile_sublist p)

/-- A trimmed text does not start with a character that is trimmed. -/
theorem head?_trimBoth {p : Char → Bool} {text : Text} :
    ∀ c ∈ (trimBoth p text).head?, p c = false := by
  intro c hc
  have hprefix : trimBoth p text <+: trimStart p text := isPrefix_trimEnd p _
  have hhead : (trimStart p text).head? = some c := by
    obtain ⟨rest, hrest⟩ := hprefix
    rw [← hrest, List.head?_append, hc]
    rfl
  have hstart := List.head?_dropWhile_not p text
  rw [trimStart] at hhead
  rw [hhead] at hstart
  simpa using hstart

/-- A trimmed text does not end in a character that is trimmed. -/
theorem getLast?_trimEnd {p : Char → Bool} {text : Text} :
    ∀ c ∈ (trimEnd p text).getLast?, p c = false := by
  intro c hc
  have hend := List.head?_dropWhile_not p text.reverse
  rw [trimEnd, List.getLast?_reverse] at hc
  rw [hc] at hend
  simpa using hend

theorem getLast?_trimBoth {p : Char → Bool} {text : Text} :
    ∀ c ∈ (trimBoth p text).getLast?, p c = false :=
  getLast?_trimEnd

/-! ## Blanks -/

theorem isBlank_of_mem {blanks : Text} (h : blanks.isAllBlank = true) {c : Char}
    (hc : c ∈ blanks) : isBlank c = true :=
  List.all_eq_true.1 h c hc

/-- Blanks at the start of a text are skipped. -/
theorem skipBlanks_append {blanks : Text} (h : blanks.isAllBlank = true) (text : Text) :
    skipBlanks (blanks ++ text) = skipBlanks text :=
  List.dropWhile_append_of_pos fun _ hc => isBlank_of_mem h hc

theorem trim_eq_self {text : Text} (hhead : ∀ c ∈ text.head?, isBlank c = false)
    (hlast : ∀ c ∈ text.getLast?, isBlank c = false) : trim text = text := by
  rw [trim, trimBoth, trimStart_eq_self hhead, trimEnd_eq_self_iff.2 hlast]

@[simp] theorem trim_trim (text : Text) : trim (trim text) = trim text :=
  trim_eq_self head?_trimBoth getLast?_trimBoth

/-- Nothing but the blanks behind a text is trimmed, if the text has none around it. -/
theorem trim_append_blanks {text blanks : Text} (hne : text ≠ [])
    (hhead : ∀ c ∈ text.head?, isBlank c = false)
    (hlast : ∀ c ∈ text.getLast?, isBlank c = false) (hblanks : blanks.isAllBlank = true) :
    trim (text ++ blanks) = text := by
  have hstart : trimStart isBlank (text ++ blanks) = text ++ blanks := by
    apply trimStart_eq_self
    rwa [List.head?_append_of_ne_nil text hne]
  have hend : trimEnd isBlank (text ++ blanks) = trimEnd isBlank text := by
    rw [trimEnd, List.reverse_append, List.dropWhile_append_of_pos, trimEnd]
    intro c hc
    exact isBlank_of_mem hblanks (List.mem_reverse.1 hc)
  rw [trim, trimBoth, hstart, hend, trimEnd_eq_self_iff.2 hlast]

end Text

end Reshape
