import Reshape.Proofs.Reading
import Reshape.Proofs.Trimming

/-!
# How expressions are read

The functions that read expressions count down a number of steps, because they
call each other on texts that they did not make shorter themselves.  `Reads` says
what they read without counting: one rule for each way in which a function
succeeds.  `parse_eq_ok_iff` says that a text is an expression exactly if the rules
say so, and so a proof about what is read can be an induction on `Reads`.

There are four groups.

* The rules.  `ReadsPath` for the segments of a path and `Reads` for all the rest.
  A `Phrase` names the function and what it gives.
* From the functions to the rules.  `Yields` is the call of the function for a
  phrase.  There is one step lemma for each function, and `reads_of_yields` is the
  induction over the number of steps.
* Progress.  `Reads.passes` says that what is left is the end of the text, and that
  every function but `pipeline` takes some character.
* From the rules to the functions.  `Reads.yields` says how many steps are enough.
-/

namespace Reshape

namespace Projection

/-! ## The rules -/

/-- The segments of a path at the start of a text, and what is left. -/
inductive ReadsPath : Text → List Segment → Text → Prop where
  | last {text rest : Text} {first : Segment} (hfirst : segment text = .ok (first, rest))
      (hend : rest.head? ≠ some '.') : ReadsPath text [first] rest
  | dot {text next rest : Text} {first : Segment} {others : List Segment}
      (hfirst : segment text = .ok (first, '.' :: next)) (hothers : ReadsPath next others rest) :
      ReadsPath text (first :: others) rest

/-- What can be read. -/
inductive Phrase where
  | expression (stages : Expression)
  /-- The stages of an expression behind the first, each with a bar before it. -/
  | pipeline (stages : List Stage)
  | stage (stage : Stage)
  /-- The members of an object literal, from behind its first brace. -/
  | members (members : List (Text × Expression))
  /-- The items of an array literal, from behind its first bracket. -/
  | items (items : List Expression)

/-- The phrase at the start of a text, and what is left. -/
inductive Reads : Phrase → Text → Text → Prop where
  | expression {text middle rest : Text} {first : Stage} {others : List Stage}
      (hfirst : Reads (.stage first) text middle) (hothers : Reads (.pipeline others) middle rest) :
      Reads (.expression (first :: others)) text rest
  | done {text : Text} (hend : text.skipBlanks.head? ≠ some '|') :
      Reads (.pipeline []) text text.skipBlanks
  | bar {text next middle rest : Text} {first : Stage} {others : List Stage}
      (hbar : text.skipBlanks = '|' :: next) (hfirst : Reads (.stage first) next middle)
      (hothers : Reads (.pipeline others) middle rest) :
      Reads (.pipeline (first :: others)) text rest
  | path {text next rest : Text} {c : Char} {segments : List Segment}
      (hstart : text.skipBlanks = c :: next) (hplain : isDelimiter c = false)
      (hsegments : ReadsPath (c :: next) segments rest) :
      Reads (.stage (.path segments)) text rest
  | object {text next rest : Text} {list : List (Text × Expression)}
      (hstart : text.skipBlanks = '{' :: next) (hmembers : Reads (.members list) next rest) :
      Reads (.stage (.object list)) text rest
  | array {text next rest : Text} {list : List Expression}
      (hstart : text.skipBlanks = '[' :: next) (hitems : Reads (.items list) next rest) :
      Reads (.stage (.array list)) text rest
  | noMember {text rest : Text} (hend : text.skipBlanks = '}' :: rest) :
      Reads (.members []) text rest
  | lastMember {text next middle rest : Text} {c : Char} {tail : Text} {key : Option Text}
      {value : Expression} (hstart : text.skipBlanks = c :: tail) (hopen : c ≠ '}')
      (hkey : memberKey (c :: tail) = .ok (key, next))
      (hvalue : Reads (.expression value) next middle) (hend : middle.skipBlanks = '}' :: rest) :
      Reads (.members [(key.getD (implicitKey value), value)]) text rest
  | nextMember {text next middle more rest : Text} {c : Char} {tail : Text} {key : Option Text}
      {value : Expression} {others : List (Text × Expression)}
      (hstart : text.skipBlanks = c :: tail) (hopen : c ≠ '}')
      (hkey : memberKey (c :: tail) = .ok (key, next))
      (hvalue : Reads (.expression value) next middle)
      (hcomma : middle.skipBlanks = ',' :: more) (hothers : Reads (.members others) more rest) :
      Reads (.members ((key.getD (implicitKey value), value) :: others)) text rest
  | noItem {text rest : Text} (hend : text.skipBlanks = ']' :: rest) :
      Reads (.items []) text rest
  | lastItem {text middle rest : Text} {c : Char} {tail : Text} {item : Expression}
      (hstart : text.skipBlanks = c :: tail) (hopen : c ≠ ']')
      (hitem : Reads (.expression item) (c :: tail) middle)
      (hend : middle.skipBlanks = ']' :: rest) :
      Reads (.items [item]) text rest
  | nextItem {text middle more rest : Text} {c : Char} {tail : Text} {item : Expression}
      {others : List Expression} (hstart : text.skipBlanks = c :: tail) (hopen : c ≠ ']')
      (hitem : Reads (.expression item) (c :: tail) middle)
      (hcomma : middle.skipBlanks = ',' :: more) (hothers : Reads (.items others) more rest) :
      Reads (.items (item :: others)) text rest

/-! ## From the functions to the rules -/

theorem bind_eq_ok_iff {α β : Type} {x : Except Fault (α × Text)} {f : α × Text → Except Fault β}
    {b : β} : x >>= f = .ok b ↔ ∃ a middle, x = .ok (a, middle) ∧ f (a, middle) = .ok b := by
  cases x with
  | error fault => simp [bind, Except.bind]
  | ok pair =>
    obtain ⟨a, middle⟩ := pair
    simp [bind, Except.bind]

theorem pure_eq_ok_iff {α : Type} {a b : α} {middle rest : Text} :
    (pure (a, middle) : Except Fault (α × Text)) = .ok (b, rest) ↔ a = b ∧ middle = rest := by
  simp [pure, Except.pure]

theorem readsPath_of_path {fuel : Nat} {text rest : Text} {segments : List Segment}
    (h : path fuel text = .ok (segments, rest)) : ReadsPath text segments rest := by
  induction fuel generalizing text segments with
  | zero => simp [path] at h
  | succ fuel ih =>
    rw [path, bind_eq_ok_iff] at h
    obtain ⟨first, middle, hfirst, h⟩ := h
    dsimp only at h
    split at h
    · rw [bind_eq_ok_iff] at h
      obtain ⟨others, rest', hothers, h⟩ := h
      obtain ⟨rfl, rfl⟩ := pure_eq_ok_iff.1 h
      exact .dot hfirst (ih hothers)
    · rename_i hdot
      obtain ⟨rfl, rfl⟩ := pure_eq_ok_iff.1 h
      refine .last hfirst fun hhead => ?_
      obtain ⟨next, hnext⟩ := List.head?_eq_some_iff.1 hhead
      exact hdot next hnext

/-- The function for a phrase gives the phrase and leaves the rest.  For the members
and items of a literal, `opened` is the text from its start. -/
def Yields (fuel : Nat) (opened text rest : Text) : Phrase → Prop
  | .expression stages => expression fuel text = .ok (stages, rest)
  | .pipeline stages => pipeline fuel text = .ok (stages, rest)
  | .stage s => stage fuel text = .ok (s, rest)
  | .members list => members fuel opened text = .ok (list, rest)
  | .items list => items fuel opened text = .ok (list, rest)

section

variable {fuel : Nat} {opened text rest : Text}
  (ih : ∀ {opened text rest : Text} {phrase : Phrase},
    Yields fuel opened text rest phrase → Reads phrase text rest)

include ih

theorem reads_expression {stages : Expression}
    (h : expression (fuel + 1) text = .ok (stages, rest)) :
    Reads (.expression stages) text rest := by
  rw [expression, bind_eq_ok_iff] at h
  obtain ⟨first, middle, hfirst, h⟩ := h
  rw [bind_eq_ok_iff] at h
  obtain ⟨others, rest', hothers, h⟩ := h
  obtain ⟨rfl, rfl⟩ := pure_eq_ok_iff.1 h
  exact .expression (@ih [] _ _ (.stage _) hfirst) (@ih [] _ _ (.pipeline _) hothers)

theorem reads_pipeline {stages : List Stage}
    (h : pipeline (fuel + 1) text = .ok (stages, rest)) :
    Reads (.pipeline stages) text rest := by
  rw [pipeline] at h
  split at h
  · rename_i hbar
    rw [bind_eq_ok_iff] at h
    obtain ⟨first, middle, hfirst, h⟩ := h
    rw [bind_eq_ok_iff] at h
    obtain ⟨others, rest', hothers, h⟩ := h
    obtain ⟨rfl, rfl⟩ := pure_eq_ok_iff.1 h
    exact .bar hbar (@ih [] _ _ (.stage _) hfirst) (@ih [] _ _ (.pipeline _) hothers)
  · rename_i hbar
    obtain ⟨rfl, rfl⟩ := pure_eq_ok_iff.1 h
    refine .done fun hhead => ?_
    obtain ⟨next, hnext⟩ := List.head?_eq_some_iff.1 hhead
    exact hbar next hnext

theorem reads_stage {s : Stage} (h : stage (fuel + 1) text = .ok (s, rest)) :
    Reads (.stage s) text rest := by
  rw [stage] at h
  split at h
  · simp at h
  · rename_i hstart
    rw [bind_eq_ok_iff] at h
    obtain ⟨list, rest', hlist, h⟩ := h
    obtain ⟨rfl, rfl⟩ := pure_eq_ok_iff.1 h
    exact .object hstart (@ih _ _ _ (.members _) hlist)
  · rename_i hstart
    rw [bind_eq_ok_iff] at h
    obtain ⟨list, rest', hlist, h⟩ := h
    obtain ⟨rfl, rfl⟩ := pure_eq_ok_iff.1 h
    exact .array hstart (@ih _ _ _ (.items _) hlist)
  · rename_i hstart
    split at h
    · simp at h
    · rename_i hplain
      rw [bind_eq_ok_iff] at h
      obtain ⟨segments, rest', hsegments, h⟩ := h
      obtain ⟨rfl, rfl⟩ := pure_eq_ok_iff.1 h
      exact .path hstart (by simpa using hplain) (readsPath_of_path hsegments)

theorem reads_members {list : List (Text × Expression)}
    (h : members (fuel + 1) opened text = .ok (list, rest)) :
    Reads (.members list) text rest := by
  rw [members] at h
  split at h
  · simp at h
  · rename_i hend
    obtain ⟨rfl, rfl⟩ := pure_eq_ok_iff.1 h
    exact .noMember hend
  · rename_i hnil hopen
    obtain ⟨c, tail, hstart⟩ := List.exists_cons_of_ne_nil hnil
    have hc : c ≠ '}' := fun heq => hopen tail (heq ▸ hstart)
    rw [hstart, bind_eq_ok_iff] at h
    obtain ⟨key, next, hkey, h⟩ := h
    rw [bind_eq_ok_iff] at h
    obtain ⟨value, middle, hvalue, h⟩ := h
    have hvalue := @ih [] _ _ (.expression _) hvalue
    dsimp only at h
    split at h
    · simp at h
    · rename_i hcomma
      rw [bind_eq_ok_iff] at h
      obtain ⟨others, rest', hothers, h⟩ := h
      obtain ⟨rfl, rfl⟩ := pure_eq_ok_iff.1 h
      exact .nextMember hstart hc hkey hvalue hcomma (@ih _ _ _ (.members _) hothers)
    · rename_i hend
      obtain ⟨rfl, rfl⟩ := pure_eq_ok_iff.1 h
      exact .lastMember hstart hc hkey hvalue hend
    · simp at h

theorem reads_items {list : List Expression}
    (h : items (fuel + 1) opened text = .ok (list, rest)) :
    Reads (.items list) text rest := by
  rw [items] at h
  split at h
  · simp at h
  · rename_i hend
    obtain ⟨rfl, rfl⟩ := pure_eq_ok_iff.1 h
    exact .noItem hend
  · rename_i hnil hopen
    obtain ⟨c, tail, hstart⟩ := List.exists_cons_of_ne_nil hnil
    have hc : c ≠ ']' := fun heq => hopen tail (heq ▸ hstart)
    rw [hstart, bind_eq_ok_iff] at h
    obtain ⟨item, middle, hitem, h⟩ := h
    have hitem := @ih [] _ _ (.expression _) hitem
    dsimp only at h
    split at h
    · simp at h
    · rename_i hcomma
      rw [bind_eq_ok_iff] at h
      obtain ⟨others, rest', hothers, h⟩ := h
      obtain ⟨rfl, rfl⟩ := pure_eq_ok_iff.1 h
      exact .nextItem hstart hc hitem hcomma (@ih _ _ _ (.items _) hothers)
    · rename_i hend
      obtain ⟨rfl, rfl⟩ := pure_eq_ok_iff.1 h
      exact .lastItem hstart hc hitem hend
    · simp at h

end

/-- What a function gives is read by the rules. -/
theorem reads_of_yields {fuel : Nat} {opened text rest : Text} {phrase : Phrase}
    (h : Yields fuel opened text rest phrase) : Reads phrase text rest := by
  -- All five functions at once, since each calls the others with one step less.
  induction fuel generalizing opened text rest phrase with
  | zero =>
    cases phrase <;> simp [Yields, expression, pipeline, stage, members, items] at h
  | succ fuel ih =>
    cases phrase with
    | expression stages => exact reads_expression ih h
    | pipeline stages => exact reads_pipeline ih h
    | stage s => exact reads_stage ih h
    | members list => exact reads_members ih h
    | items list => exact reads_items ih h

/-! ## Progress -/

/-- What is left is the end of the text, and at least `n` characters are taken. -/
def Passes (n : Nat) (text rest : Text) : Prop :=
  rest <:+ text ∧ rest.length + n ≤ text.length

theorem Passes.trans {n m : Nat} {text middle rest : Text} (h : Passes n text middle)
    (h' : Passes m middle rest) : Passes (n + m) text rest :=
  ⟨h'.1.trans h.1, by have := h.2; have := h'.2; omega⟩

theorem Passes.mono {n m : Nat} {text rest : Text} (h : Passes n text rest) (hle : m ≤ n) :
    Passes m text rest :=
  ⟨h.1, by have := h.2; omega⟩

theorem passes_of_suffix {text rest : Text} (h : rest <:+ text) : Passes 0 text rest :=
  ⟨h, h.length_le⟩

/-- What a key leaves is the end of the text. -/
theorem scanKey_suffix (text : Text) : (scanKey text).2 <:+ text := by
  fun_induction scanKey text with
  | case1 => exact List.suffix_rfl
  | case2 => exact List.nil_suffix
  | case3 c rest key rest' hscan ih =>
    rw [hscan] at ih
    exact ih.trans (List.suffix_append ['\\', c] rest)
  | case4 c rest => exact List.suffix_rfl
  | case5 c rest _ _ _ key rest' hscan ih =>
    rw [hscan] at ih
    exact ih.trans (List.suffix_cons c rest)

/-- Every character of a key takes at least one character of the text. -/
theorem length_scanKey_le (text : Text) :
    (scanKey text).1.length + (scanKey text).2.length ≤ text.length := by
  fun_induction scanKey text with
  | case1 => simp
  | case2 => simp
  | case3 c rest key rest' hscan ih =>
    simp only [hscan, List.length_cons] at ih ⊢
    omega
  | case4 c rest => simp
  | case5 c rest _ _ _ key rest' hscan ih =>
    simp only [hscan, List.length_cons] at ih ⊢
    omega

/-- What a modifier is read from: its name, and a colon and digits if it has an
argument. -/
theorem modifier_cases {start text rest : Text} {s : Segment}
    (h : modifier start text = .ok (s, rest)) :
    ∃ name m, s = .modifier m ∧
      (Modifier.ofName? name none = some m ∧ text = name ++ rest ∨
        ∃ digits levels, Text.word? digits = some levels ∧
          Modifier.ofName? name (some levels) = some m ∧
          text = name ++ ':' :: digits ++ rest) := by
  have hspan : ∀ (p : Char → Bool) (text : Text), text = (text.span p).1 ++ (text.span p).2 := by
    intro p text
    rw [List.span_eq_takeWhile_dropWhile]
    exact List.takeWhile_append_dropWhile.symm
  have htext := hspan isNameChar text
  unfold modifier at h
  dsimp only at h
  split at h
  · rename_i after hcolon
    have hafter := hspan Char.isDigit after
    split at h
    · rename_i levels hlevels
      split at h
      · rename_i m hm
        simp only [Except.ok.injEq, Prod.mk.injEq] at h
        obtain ⟨rfl, rfl⟩ := h
        refine ⟨_, m, rfl, .inr ⟨_, levels, hlevels, hm, ?_⟩⟩
        rw [List.append_assoc, List.cons_append, ← hafter, ← hcolon, ← htext]
      · simp at h
    · simp at h
  · split at h
    · rename_i m hm
      simp only [Except.ok.injEq, Prod.mk.injEq] at h
      obtain ⟨rfl, rfl⟩ := h
      exact ⟨_, m, rfl, .inl ⟨hm, htext⟩⟩
    · simp at h

/-- What a segment is read from: a modifier behind an `@`, or a key. -/
theorem segment_cases {text rest : Text} {s : Segment} (h : segment text = .ok (s, rest)) :
    (∃ tail, text = '@' :: tail ∧ modifier text tail = .ok (s, rest)) ∨
      text.head? ≠ some '@' ∧ (scanKey text).1 ≠ [] ∧ rest = (scanKey text).2 ∧
        s = if (scanKey text).1 = ['#'] then .each else .key (scanKey text).1 := by
  unfold segment at h
  split at h
  · exact .inl ⟨_, rfl, h⟩
  · rename_i hat
    dsimp only at h
    refine .inr ⟨fun hhead => ?_, ?_⟩
    · obtain ⟨tail, htail⟩ := List.head?_eq_some_iff.1 hhead
      exact hat tail htail
    · split at h
      · simp at h
      · rename_i hkey
        refine ⟨by simpa using hkey, ?_⟩
        split at h
        · rename_i heach
          simp only [Except.ok.injEq, Prod.mk.injEq] at h
          rw [if_pos heach]
          exact ⟨h.2.symm, h.1.symm⟩
        · rename_i heach
          simp only [Except.ok.injEq, Prod.mk.injEq] at h
          rw [if_neg heach]
          exact ⟨h.2.symm, h.1.symm⟩

/-- A segment leaves the end of the text, and takes at least one character. -/
theorem segment_passes {text rest : Text} {s : Segment} (h : segment text = .ok (s, rest)) :
    Passes 1 text rest := by
  rcases segment_cases h with ⟨tail, rfl, hmodifier⟩ | ⟨-, hkey, rfl, -⟩
  · obtain ⟨name, m, -, ⟨-, rfl⟩ | ⟨digits, levels, -, -, rfl⟩⟩ := modifier_cases hmodifier
    · exact ⟨List.suffix_append ('@' :: name) rest, by simp⟩
    · exact ⟨List.suffix_append ('@' :: name ++ ':' :: digits) rest, by simp; omega⟩
  · have hlength := length_scanKey_le text
    have hpos := List.length_pos_iff.2 hkey
    exact ⟨scanKey_suffix text, by omega⟩

theorem passes_cons (c : Char) (rest : Text) : Passes 1 (c :: rest) rest :=
  ⟨List.suffix_cons c rest, Nat.le_refl _⟩

theorem ReadsPath.passes {text rest : Text} {segments : List Segment}
    (h : ReadsPath text segments rest) : Passes 1 text rest := by
  induction h with
  | last hfirst _ => exact segment_passes hfirst
  | dot hfirst _ ih =>
    exact ((segment_passes hfirst).trans ((passes_cons '.' _).trans ih)).mono (by omega)

theorem scanQuoted?_suffix {text key rest : Text} (h : scanQuoted? text = some (key, rest)) :
    rest <:+ text := by
  fun_induction scanQuoted? text generalizing key with
  | case1 => simp at h
  | case2 rest' =>
    simp only [Option.some.injEq, Prod.mk.injEq] at h
    exact h.2 ▸ List.suffix_cons '"' rest'
  | case3 => simp at h
  | case4 c rest' ih =>
    obtain ⟨⟨key', rest''⟩, hscan, hkey⟩ := Option.map_eq_some_iff.1 h
    simp only [Prod.mk.injEq] at hkey
    rw [hkey.2] at hscan
    exact (ih hscan).trans (List.suffix_append ['\\', c] rest')
  | case5 c rest' _ _ _ ih =>
    obtain ⟨⟨key', rest''⟩, hscan, hkey⟩ := Option.map_eq_some_iff.1 h
    simp only [Prod.mk.injEq] at hkey
    rw [hkey.2] at hscan
    exact (ih hscan).trans (List.suffix_cons c rest')

/-- A key without quotes is all that stands before the first colon, and holds none of
the characters that end it. -/
theorem scanBareKey?_eq_some {text raw rest : Text} (h : scanBareKey? text = some (raw, rest)) :
    text = raw ++ ':' :: rest ∧ ∀ c ∈ raw, c ≠ ':' ∧ endsBareKey c = false := by
  induction text generalizing raw with
  | nil => simp [scanBareKey?] at h
  | cons c text ih =>
    rw [scanBareKey?] at h
    split at h
    · rename_i hcolon
      simp only [Option.some.injEq, Prod.mk.injEq] at h
      obtain ⟨rfl, rfl⟩ := h
      simp [hcolon]
    · rename_i hcolon
      split at h
      · simp at h
      · rename_i hends
        obtain ⟨⟨raw', rest'⟩, hscan, hraw⟩ := Option.map_eq_some_iff.1 h
        simp only [Prod.mk.injEq] at hraw
        obtain ⟨rfl, rfl⟩ := hraw
        obtain ⟨htext, hfree⟩ := ih hscan
        refine ⟨by rw [htext, List.cons_append], ?_⟩
        rw [List.forall_mem_cons]
        exact ⟨⟨hcolon, by simpa using hends⟩, hfree⟩

/-- What the key of a member is read from: a quoted key and a colon, nothing at all, or
a key without quotes and a colon. -/
theorem memberKey_cases {text rest : Text} {key : Option Text}
    (h : memberKey text = .ok (key, rest)) :
    (∃ tail quoted after, text = '"' :: tail ∧ scanQuoted? tail = some (quoted, after) ∧
        after.skipBlanks = ':' :: rest ∧ key = some quoted) ∨
      (key = none ∧ rest = text) ∨
      ∃ raw : Text, text = raw ++ ':' :: rest ∧ (∀ c ∈ raw, c ≠ ':' ∧ endsBareKey c = false) ∧
        raw.trim ≠ [] ∧ raw.trim.head? ≠ some '@' ∧ text.head? ≠ some '"' ∧
        key = some raw.trim := by
  unfold memberKey at h
  split at h
  · rename_i tail
    split at h
    · simp at h
    · rename_i quoted after hscan
      split at h
      · rename_i hcolon
        simp only [Except.ok.injEq, Prod.mk.injEq] at h
        obtain ⟨rfl, rfl⟩ := h
        exact .inl ⟨tail, quoted, after, rfl, hscan, hcolon, rfl⟩
      · simp at h
  · rename_i hquote
    split at h
    · simp only [Except.ok.injEq, Prod.mk.injEq] at h
      exact .inr (.inl ⟨h.1.symm, h.2.symm⟩)
    · rename_i raw after hscan
      dsimp only at h
      split at h
      · simp only [Except.ok.injEq, Prod.mk.injEq] at h
        exact .inr (.inl ⟨h.1.symm, h.2.symm⟩)
      · rename_i hkey
        simp only [Except.ok.injEq, Prod.mk.injEq] at h
        obtain ⟨rfl, rfl⟩ := h
        simp only [Bool.or_eq_true, List.isEmpty_iff, decide_eq_true_eq, not_or] at hkey
        obtain ⟨htext, hfree⟩ := scanBareKey?_eq_some hscan
        refine .inr (.inr ⟨raw, htext, hfree, hkey.1, hkey.2, fun hhead => ?_, rfl⟩)
        obtain ⟨tail, htail⟩ := List.head?_eq_some_iff.1 hhead
        exact hquote tail htail

theorem suffix_of_skipBlanks {text rest : Text} (h : text.skipBlanks = rest) : rest <:+ text :=
  h ▸ List.dropWhile_suffix isBlank

/-- A key of a member leaves the end of the text; there may be no key at all. -/
theorem memberKey_suffix {text rest : Text} {key : Option Text}
    (h : memberKey text = .ok (key, rest)) : rest <:+ text := by
  rcases memberKey_cases h with ⟨tail, quoted, after, rfl, hscan, hcolon, -⟩ | ⟨-, rfl⟩ |
    ⟨raw, rfl, -⟩
  · exact (List.suffix_cons ':' rest).trans ((suffix_of_skipBlanks hcolon).trans
      ((scanQuoted?_suffix hscan).trans (List.suffix_cons '"' tail)))
  · exact List.suffix_rfl
  · exact (List.suffix_cons ':' rest).trans (List.suffix_append raw _)

/-- Blanks and the character behind them. -/
theorem passes_of_skipBlanks {text rest : Text} {c : Char} (h : text.skipBlanks = c :: rest) :
    Passes 1 text rest :=
  ⟨(List.suffix_cons c rest).trans (suffix_of_skipBlanks h), (suffix_of_skipBlanks h).length_le⟩

/-- The least number of characters that a phrase takes. -/
def Phrase.least : Phrase → Nat
  | .pipeline _ => 0
  | _ => 1

/-- What is left is the end of the text, and all phrases but a pipeline take at least
one character. -/
theorem Reads.passes {phrase : Phrase} {text rest : Text} (h : Reads phrase text rest) :
    Passes phrase.least text rest := by
  induction h with
  | expression _ _ ihFirst ihOthers => exact ihFirst.trans ihOthers
  | done _ => exact passes_of_suffix (suffix_of_skipBlanks rfl)
  | bar hbar _ _ ihFirst ihOthers =>
    exact ((passes_of_skipBlanks hbar).trans (ihFirst.trans ihOthers)).mono (Nat.zero_le _)
  | path hstart _ hsegments =>
    exact (passes_of_suffix (suffix_of_skipBlanks hstart)).trans hsegments.passes
  | object hstart _ ih =>
    exact ((passes_of_skipBlanks hstart).trans ih).mono (by simp [Phrase.least])
  | array hstart _ ih =>
    exact ((passes_of_skipBlanks hstart).trans ih).mono (by simp [Phrase.least])
  | noMember hend => exact passes_of_skipBlanks hend
  | lastMember hstart _ hkey _ hend ih =>
    have hkey := (memberKey_suffix hkey).trans (suffix_of_skipBlanks hstart)
    exact ((passes_of_suffix hkey).trans (ih.trans (passes_of_skipBlanks hend))).mono
      (by simp [Phrase.least])
  | nextMember hstart _ hkey _ hcomma _ ihValue ihOthers =>
    have hkey := (memberKey_suffix hkey).trans (suffix_of_skipBlanks hstart)
    exact ((passes_of_suffix hkey).trans
      (ihValue.trans ((passes_of_skipBlanks hcomma).trans ihOthers))).mono (by simp [Phrase.least])
  | noItem hend => exact passes_of_skipBlanks hend
  | lastItem hstart _ _ hend ih =>
    have hstart := passes_of_suffix (suffix_of_skipBlanks hstart)
    exact (hstart.trans (ih.trans (passes_of_skipBlanks hend))).mono (by simp [Phrase.least])
  | nextItem hstart _ _ hcomma _ ihItem ihOthers =>
    have hstart := passes_of_suffix (suffix_of_skipBlanks hstart)
    exact (hstart.trans (ihItem.trans ((passes_of_skipBlanks hcomma).trans ihOthers))).mono
      (by simp [Phrase.least])

/-! ## From the rules to the functions -/

theorem ReadsPath.path_eq {text rest : Text} {segments : List Segment}
    (h : ReadsPath text segments rest) :
    ∀ fuel, text.length < fuel → path fuel text = .ok (segments, rest) := by
  induction h with
  | @last text rest first hfirst hend =>
    intro fuel hfuel
    obtain ⟨fuel, rfl⟩ : ∃ n, fuel = n + 1 := ⟨fuel - 1, by omega⟩
    rw [path, bind_eq_ok_iff]
    refine ⟨first, rest, hfirst, ?_⟩
    dsimp only
    split
    · exact absurd rfl hend
    · rfl
  | @dot text next rest first others hfirst hothers ih =>
    intro fuel hfuel
    obtain ⟨fuel, rfl⟩ : ∃ n, fuel = n + 1 := ⟨fuel - 1, by omega⟩
    have hlength := (segment_passes hfirst).2
    rw [List.length_cons] at hlength
    rw [path, bind_eq_ok_iff]
    refine ⟨first, '.' :: next, hfirst, ?_⟩
    exact bind_eq_ok_iff.2 ⟨others, rest, ih fuel (by omega), rfl⟩

/-- The number of steps that a phrase needs besides three for each character. -/
def Phrase.slack : Phrase → Nat
  | .expression _ => 2
  | .pipeline _ => 1
  | .stage _ => 1
  | .members _ => 3
  | .items _ => 3

theorem exists_succ_of_slack {fuel n : Nat} {phrase : Phrase} (h : n + phrase.slack ≤ fuel) :
    ∃ less, fuel = less + 1 := by
  refine ⟨fuel - 1, ?_⟩
  cases phrase <;> simp only [Phrase.slack] at h <;> omega

/-- What the rules read is what the function gives, if it may take enough steps. -/
theorem Reads.yields {phrase : Phrase} {text rest : Text} (h : Reads phrase text rest) :
    ∀ fuel opened, 3 * text.length + phrase.slack ≤ fuel → Yields fuel opened text rest phrase := by
  -- A call on a text that is not shorter goes to a phrase with less slack; where it goes to one
  -- with more, a character was taken before.
  induction h with
  | expression hfirst _ ihFirst ihOthers =>
    intro fuel opened hfuel
    obtain ⟨fuel, rfl⟩ := exists_succ_of_slack hfuel
    have hfirst := hfirst.passes.2
    simp only [Phrase.slack, Phrase.least] at hfuel hfirst ihFirst ihOthers
    rw [Yields, Projection.expression, bind_eq_ok_iff]
    refine ⟨_, _, ihFirst fuel opened (by omega), ?_⟩
    exact bind_eq_ok_iff.2 ⟨_, _, ihOthers fuel opened (by omega), rfl⟩
  | done hend =>
    intro fuel opened hfuel
    obtain ⟨fuel, rfl⟩ := exists_succ_of_slack hfuel
    rw [Yields, pipeline]
    split
    · rename_i hbar
      exact absurd (by rw [hbar, List.head?_cons]) hend
    · rfl
  | bar hbar hfirst _ ihFirst ihOthers =>
    intro fuel opened hfuel
    obtain ⟨fuel, rfl⟩ := exists_succ_of_slack hfuel
    have hbar' := (passes_of_skipBlanks hbar).2
    have hfirst := hfirst.passes.2
    simp only [Phrase.slack, Phrase.least] at hfuel hfirst ihFirst ihOthers
    rw [Yields, pipeline, hbar]
    refine bind_eq_ok_iff.2 ⟨_, _, ihFirst fuel opened (by omega), ?_⟩
    exact bind_eq_ok_iff.2 ⟨_, _, ihOthers fuel opened (by omega), rfl⟩
  | @path text next rest c segments hstart hplain hsegments =>
    intro fuel opened hfuel
    obtain ⟨fuel, rfl⟩ := exists_succ_of_slack hfuel
    have hlength := (suffix_of_skipBlanks hstart).length_le
    simp only [Phrase.slack, List.length_cons] at hfuel hlength
    have hpath := hsegments.path_eq fuel (by rw [List.length_cons]; omega)
    rw [Yields, stage, hstart]
    split
    · rename_i hnil
      exact absurd hnil (by simp)
    · rename_i heq
      obtain ⟨rfl, -⟩ := List.cons.inj heq
      exact absurd hplain (by decide)
    · rename_i heq
      obtain ⟨rfl, -⟩ := List.cons.inj heq
      exact absurd hplain (by decide)
    · rename_i heq
      obtain ⟨rfl, rfl⟩ := List.cons.inj heq
      rw [if_neg (by simp [hplain])]
      exact bind_eq_ok_iff.2 ⟨_, _, hpath, rfl⟩
  | object hstart _ ih =>
    intro fuel opened hfuel
    obtain ⟨fuel, rfl⟩ := exists_succ_of_slack hfuel
    have hlength := (passes_of_skipBlanks hstart).2
    simp only [Phrase.slack] at hfuel ih
    rw [Yields, stage, hstart]
    exact bind_eq_ok_iff.2 ⟨_, _, ih fuel _ (by omega), rfl⟩
  | array hstart _ ih =>
    intro fuel opened hfuel
    obtain ⟨fuel, rfl⟩ := exists_succ_of_slack hfuel
    have hlength := (passes_of_skipBlanks hstart).2
    simp only [Phrase.slack] at hfuel ih
    rw [Yields, stage, hstart]
    exact bind_eq_ok_iff.2 ⟨_, _, ih fuel _ (by omega), rfl⟩
  | noMember hend =>
    intro fuel opened hfuel
    obtain ⟨fuel, rfl⟩ := exists_succ_of_slack hfuel
    rw [Yields, members, hend]
    rfl
  | lastMember hstart hopen hkey _ hend ih =>
    intro fuel opened hfuel
    obtain ⟨fuel, rfl⟩ := exists_succ_of_slack hfuel
    have hlength := ((memberKey_suffix hkey).trans (suffix_of_skipBlanks hstart)).length_le
    simp only [Phrase.slack] at hfuel ih
    have hvalue := ih fuel opened (by omega)
    simp only [Yields] at hvalue ⊢
    simp [members, hstart, hopen, hkey, hvalue, hend, bind, Except.bind, pure, Except.pure]
  | nextMember hstart hopen hkey hvalue hcomma _ ihValue ihOthers =>
    intro fuel opened hfuel
    obtain ⟨fuel, rfl⟩ := exists_succ_of_slack hfuel
    have hlength := ((memberKey_suffix hkey).trans (suffix_of_skipBlanks hstart)).length_le
    have hmore := (hvalue.passes.trans (passes_of_skipBlanks hcomma)).2
    simp only [Phrase.slack, Phrase.least] at hfuel hmore ihValue ihOthers
    have hvalue := ihValue fuel opened (by omega)
    have hothers := ihOthers fuel opened (by omega)
    simp only [Yields] at hvalue hothers ⊢
    simp [members, hstart, hopen, hkey, hvalue, hcomma, hothers, bind, Except.bind, pure,
      Except.pure]
  | noItem hend =>
    intro fuel opened hfuel
    obtain ⟨fuel, rfl⟩ := exists_succ_of_slack hfuel
    rw [Yields, items, hend]
    rfl
  | lastItem hstart hopen _ hend ih =>
    intro fuel opened hfuel
    obtain ⟨fuel, rfl⟩ := exists_succ_of_slack hfuel
    have hlength := (suffix_of_skipBlanks hstart).length_le
    simp only [Phrase.slack] at hfuel ih
    have hitem := ih fuel opened (by omega)
    simp only [Yields] at hitem ⊢
    simp [items, hstart, hopen, hitem, hend, bind, Except.bind, pure, Except.pure]
  | nextItem hstart hopen hitem hcomma _ ihItem ihOthers =>
    intro fuel opened hfuel
    obtain ⟨fuel, rfl⟩ := exists_succ_of_slack hfuel
    have hlength := (suffix_of_skipBlanks hstart).length_le
    have hmore := (hitem.passes.trans (passes_of_skipBlanks hcomma)).2
    simp only [Phrase.slack, Phrase.least] at hfuel hmore ihItem ihOthers
    have hitem := ihItem fuel opened (by omega)
    have hothers := ihOthers fuel opened (by omega)
    simp only [Yields] at hitem hothers ⊢
    simp [items, hstart, hopen, hitem, hcomma, hothers, bind, Except.bind, pure, Except.pure]

/-- No expression is read from blanks. -/
theorem Reads.isAllBlank_eq {text rest : Text} {e : Expression}
    (h : Reads (.expression e) text rest) : text.isAllBlank = false := by
  by_contra hblank
  have hskip : text.skipBlanks = [] :=
    List.dropWhile_eq_nil_iff.2 fun _ hc => Text.isBlank_of_mem (by simpa using hblank) hc
  cases h with
  | expression hfirst _ => cases hfirst <;> simp_all

/-- A text reads as an expression if the rules read the expression from it and leave
nothing but blanks. -/
theorem parse_eq_ok_iff {text : Text} {e : Expression} :
    parse text = .ok e ↔ ∃ rest, Reads (.expression e) text rest ∧ rest.skipBlanks = [] := by
  have hparse : parse text = .ok e ↔ read text = .ok e := by
    unfold parse
    cases read text <;> simp [Except.mapError]
  rw [hparse, read]
  constructor
  · intro h
    split at h
    · simp at h
    · obtain ⟨stages, rest, hstages, h⟩ := bind_eq_ok_iff.1 h
      dsimp only at h
      split at h
      · rename_i hend
        simp only [pure, Except.pure, Except.ok.injEq] at h
        subst h
        exact ⟨rest, @reads_of_yields _ [] _ _ (.expression _) hstages, hend⟩
      · simp at h
  · rintro ⟨rest, hreads, hend⟩
    have hyields := hreads.yields (3 * text.length + 2) [] (Nat.le_refl _)
    rw [if_neg (by simp [hreads.isAllBlank_eq])]
    exact bind_eq_ok_iff.2 ⟨e, rest, hyields, by simp only [hend]; rfl⟩

/-- Asking for the value of a text that reads as an expression. -/
theorem get_of_parse {text : Text} {e : Expression} (h : parse text = .ok e) (maxDepth : Nat)
    (d : Document) : get maxDepth d text = evaluate maxDepth e d := by
  obtain ⟨rest, hreads, -⟩ := parse_eq_ok_iff.1 h
  simp [get, hreads.isAllBlank_eq, h, bind, Except.bind]

end Projection

end Reshape
