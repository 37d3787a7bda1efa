import Reshape.Proofs.Derivation

/-!
# Where faults are

A fault names its cause and the text from the place that it is about, and the error that
is reported counts the characters before that place.  This module shows that the place is
the right one: it is in the text, and what stands there is what the error is about.

There are four groups.

* Places.  `Cause.Fits` says what stands at the place of a fault, for each cause, and
  `FaultsIn` holds of a result if its fault, if any, is at such a place of the text.
  `FaultsIn.bind` is how the proofs go on from one call to the next.
* Pieces.  The faults of segments, paths and keys.
* Expressions.  `FaultsWithin` is the invariant of the five functions that call each other,
  with one step lemma for each.  A fault of a function that ran out of steps would be at no
  such place, so the invariant asks for enough steps.
* Errors.  `Error.PointsInto` says what the reported position means, in terms of the text
  alone, and `pointsInto_of_parse_eq_error` is the result.
-/

namespace Reshape

namespace Projection

/-! ## Places -/

/-- What stands at the place of a fault. -/
def Cause.Fits : Cause → Text → Prop
  | .endOfInput, rest => rest = []
  | .unclosedObject, rest => rest.head? = some '{'
  | .unclosedArray, rest => rest.head? = some '['
  | .unterminatedKey, rest => rest.head? = some '"'
  | .unknownModifier name, rest => ∃ tail, rest = '@' :: (name ++ tail) ∧
      (∀ c ∈ tail.head?, isNameChar c = false) ∧
      (tail.head? ≠ some ':' → Modifier.ofName? name none = none)
  | .afterExpression, rest => rest ≠ [] ∧ rest.head? ≠ some '|'
  | .notStage, rest => rest.head? ≠ some '{' ∧ rest.head? ≠ some '['
  | .insideObject, rest => rest.head? ≠ some ',' ∧ rest.head? ≠ some '}'
  | .insideArray, rest => rest.head? ≠ some ',' ∧ rest.head? ≠ some ']'
  | .notColon, rest => rest.head? ≠ some ':'
  | .notSegment, rest => rest.head? ≠ some '#'
  | .empty, _ => True
  | .argument _, _ => True

/-- The place of a fault is in the text, and what stands there fits the cause. -/
structure Fault.IsIn (fault : Fault) (input : Text) : Prop where
  isSuffix : fault.rest <:+ input
  fits : fault.cause.Fits fault.rest

/-- A result is no fault, or a fault in the text. -/
def FaultsIn {α : Type} (input : Text) (result : Except Fault α) : Prop :=
  ∀ fault, result = .error fault → fault.IsIn input

section

variable {α β : Type} {input : Text}

theorem faultsIn_ok (a : α) : FaultsIn input (.ok a) := by
  intro fault h
  simp at h

theorem faultsIn_error {cause : Cause} {rest : Text} (hrest : rest <:+ input)
    (hfits : cause.Fits rest) : FaultsIn input (.error ⟨cause, rest⟩ : Except Fault α) := by
  intro fault h
  obtain rfl := Except.error.inj h
  exact ⟨hrest, hfits⟩

/-- The faults of two calls in a row. -/
theorem FaultsIn.bind {x : Except Fault (α × Text)} {f : α × Text → Except Fault β}
    (hx : FaultsIn input x) (hf : ∀ a rest, x = .ok (a, rest) → FaultsIn input (f (a, rest))) :
    FaultsIn input (x >>= f) := by
  intro fault h
  cases x with
  | error first =>
    obtain rfl : first = fault := Except.error.inj h
    exact hx first rfl
  | ok pair => exact hf pair.1 pair.2 rfl fault h

end

/-! ## Pieces -/

/-- A key ends at the end of the text or before a character that ends it. -/
theorem endsKey_of_mem_head?_scanKey (text : Text) :
    ∀ c ∈ (scanKey text).2.head?, endsKey c = true := by
  fun_induction scanKey text with
  | case1 => simp
  | case2 => simp
  | case3 c rest key rest' hscan ih => rwa [hscan] at ih
  | case4 c rest _ _ hends => simpa using hends
  | case5 c rest _ _ _ key rest' hscan ih => rwa [hscan] at ih

theorem head?_dropWhile_eq_false {p : Char → Bool} {text : Text} :
    ∀ c ∈ (text.dropWhile p).head?, p c = false := by
  intro c hc
  have hstop := List.head?_dropWhile_not p text
  rw [hc] at hstop
  simpa using hstop

theorem head?_ne_some {c : Char} {text : Text} (h : ∀ rest, text = c :: rest → False) :
    text.head? ≠ some c := by
  intro hhead
  obtain ⟨rest, hrest⟩ := List.head?_eq_some_iff.1 hhead
  exact h rest hrest

section

variable {input : Text}

/-- A modifier that does not exist is reported at its `@`. -/
theorem faultsIn_modifier {tail : Text} (h : '@' :: tail <:+ input) :
    FaultsIn input (modifier ('@' :: tail) tail) := by
  have hspan : tail.span isNameChar = (tail.takeWhile isNameChar, tail.dropWhile isNameChar) :=
    List.span_eq_takeWhile_dropWhile isNameChar tail
  have hname := @head?_dropWhile_eq_false isNameChar tail
  -- what the reader has passed when it looks for the name
  have hplace : '@' :: tail = '@' :: (tail.takeWhile isNameChar ++ tail.dropWhile isNameChar) := by
    rw [List.takeWhile_append_dropWhile]
  unfold modifier
  rw [hspan]
  dsimp only
  split
  · rename_i after hcolon
    have hafter : after <:+ input :=
      (List.suffix_cons ':' after).trans (hcolon ▸ (List.dropWhile_suffix isNameChar).trans
        ((List.suffix_cons '@' tail).trans h))
    split
    · split
      · exact faultsIn_ok _
      · refine faultsIn_error h ⟨tail.dropWhile isNameChar, hplace, hname, fun hne => ?_⟩
        rw [hcolon] at hne
        exact absurd rfl hne
    · rw [List.span_eq_takeWhile_dropWhile]
      exact faultsIn_error ((List.dropWhile_suffix _).trans hafter) trivial
  · split
    · exact faultsIn_ok _
    · rename_i hunknown
      exact faultsIn_error h ⟨tail.dropWhile isNameChar, hplace, hname, fun _ => hunknown⟩

theorem faultsIn_segment {text : Text} (h : text <:+ input) : FaultsIn input (segment text) := by
  unfold segment
  split
  · exact faultsIn_modifier h
  · dsimp only
    split
    · refine faultsIn_error ((scanKey_suffix text).trans h) fun hhash => ?_
      exact absurd (endsKey_of_mem_head?_scanKey text '#' hhash) (by decide)
    · split <;> exact faultsIn_ok _

theorem faultsIn_path (fuel : Nat) {text : Text} (h : text <:+ input) (hfuel : text.length < fuel) :
    FaultsIn input (path fuel text) := by
  induction fuel generalizing text with
  | zero => omega
  | succ fuel ih =>
    rw [path]
    refine (faultsIn_segment h).bind fun first rest hfirst => ?_
    have hpasses := segment_passes hfirst
    dsimp only
    split
    · rename_i next
      have hlength := hpasses.2
      rw [List.length_cons] at hlength
      have hnext := (List.suffix_cons '.' next).trans (hpasses.1.trans h)
      exact (ih hnext (by omega)).bind fun _ _ _ => faultsIn_ok _
    · exact faultsIn_ok _

theorem faultsIn_memberKey {text : Text} (h : text <:+ input) : FaultsIn input (memberKey text) := by
  unfold memberKey
  split
  · rename_i tail
    split
    · exact faultsIn_error h rfl
    · rename_i quoted after hscan
      have hafter := (scanQuoted?_suffix hscan).trans ((List.suffix_cons '"' tail).trans h)
      split
      · exact faultsIn_ok _
      · rename_i hcolon
        exact faultsIn_error ((suffix_of_skipBlanks rfl).trans hafter) (head?_ne_some hcolon)
  · split
    · exact faultsIn_ok _
    · dsimp only
      split <;> exact faultsIn_ok _

end

/-! ## Expressions -/

/-- All faults of the functions with the given number of steps are in the text, if the steps
are enough.  Behind the start of a literal, the place of its first bracket is known. -/
structure FaultsWithin (input : Text) (fuel : Nat) : Prop where
  ofExpression : ∀ {text}, text <:+ input → 3 * text.length + 2 ≤ fuel →
    FaultsIn input (expression fuel text)
  ofPipeline : ∀ {text}, text <:+ input → 3 * text.length + 1 ≤ fuel →
    FaultsIn input (pipeline fuel text)
  ofStage : ∀ {text}, text <:+ input → 3 * text.length + 1 ≤ fuel →
    FaultsIn input (stage fuel text)
  ofMembers : ∀ {opened text}, opened <:+ input → opened.head? = some '{' → text <:+ input →
    3 * text.length + 3 ≤ fuel → FaultsIn input (members fuel opened text)
  ofItems : ∀ {opened text}, opened <:+ input → opened.head? = some '[' → text <:+ input →
    3 * text.length + 3 ≤ fuel → FaultsIn input (items fuel opened text)

/-- What an expression takes from a text. -/
theorem passes_of_expression {fuel : Nat} {text rest : Text} {stages : Expression}
    (h : expression fuel text = .ok (stages, rest)) : Passes 1 text rest :=
  (@reads_of_yields fuel [] text rest (.expression stages) h).passes

/-- What a stage takes from a text. -/
theorem passes_of_stage {fuel : Nat} {text rest : Text} {s : Stage}
    (h : stage fuel text = .ok (s, rest)) : Passes 1 text rest :=
  (@reads_of_yields fuel [] text rest (.stage s) h).passes

section

variable {input opened text : Text} {fuel : Nat}

theorem FaultsWithin.expression_succ (ih : FaultsWithin input fuel) (htext : text <:+ input)
    (hfuel : 3 * text.length + 2 ≤ fuel + 1) : FaultsIn input (expression (fuel + 1) text) := by
  rw [expression]
  refine (ih.ofStage htext (by omega)).bind fun first middle hfirst => ?_
  have hpasses := passes_of_stage hfirst
  have hlength := hpasses.2
  exact (ih.ofPipeline (hpasses.1.trans htext) (by omega)).bind fun _ _ _ => faultsIn_ok _

theorem FaultsWithin.pipeline_succ (ih : FaultsWithin input fuel) (htext : text <:+ input)
    (hfuel : 3 * text.length + 1 ≤ fuel + 1) : FaultsIn input (pipeline (fuel + 1) text) := by
  rw [pipeline]
  split
  · rename_i next hbar
    have hnext := passes_of_skipBlanks hbar
    have hlength := hnext.2
    refine (ih.ofStage (hnext.1.trans htext) (by omega)).bind fun first middle hfirst => ?_
    have hpasses := hnext.trans (passes_of_stage hfirst)
    have hlength' := hpasses.2
    exact (ih.ofPipeline (hpasses.1.trans htext) (by omega)).bind fun _ _ _ => faultsIn_ok _
  · exact faultsIn_ok _

theorem FaultsWithin.stage_succ (ih : FaultsWithin input fuel) (htext : text <:+ input)
    (hfuel : 3 * text.length + 1 ≤ fuel + 1) : FaultsIn input (stage (fuel + 1) text) := by
  rw [stage]
  split
  · exact faultsIn_error (List.nil_suffix) rfl
  · rename_i next hstart
    have hopened := (suffix_of_skipBlanks hstart).trans htext
    have hlength := (passes_of_skipBlanks hstart).2
    exact (ih.ofMembers hopened rfl ((List.suffix_cons _ next).trans hopened) (by omega)).bind
      fun _ _ _ => faultsIn_ok _
  · rename_i next hstart
    have hopened := (suffix_of_skipBlanks hstart).trans htext
    have hlength := (passes_of_skipBlanks hstart).2
    exact (ih.ofItems hopened rfl ((List.suffix_cons _ next).trans hopened) (by omega)).bind
      fun _ _ _ => faultsIn_ok _
  · rename_i c next hobject harray hstart
    have hplace := suffix_of_skipBlanks hstart
    split
    · refine faultsIn_error (hplace.trans htext) ⟨?_, ?_⟩
      · intro hhead
        exact hobject (Option.some.inj hhead)
      · intro hhead
        exact harray (Option.some.inj hhead)
    · have hlength := hplace.length_le
      rw [List.length_cons] at hlength
      exact (faultsIn_path fuel (hplace.trans htext) (by rw [List.length_cons]; omega)).bind
        fun _ _ _ => faultsIn_ok _

theorem FaultsWithin.members_succ (ih : FaultsWithin input fuel) (hopened : opened <:+ input)
    (hbrace : opened.head? = some '{') (htext : text <:+ input)
    (hfuel : 3 * text.length + 3 ≤ fuel + 1) : FaultsIn input (members (fuel + 1) opened text) := by
  rw [members]
  split
  · exact faultsIn_error hopened hbrace
  · exact faultsIn_ok _
  · have hstart : text.skipBlanks <:+ text := suffix_of_skipBlanks rfl
    refine (faultsIn_memberKey (hstart.trans htext)).bind fun key next hkey => ?_
    have hnext := (memberKey_suffix hkey).trans hstart
    have hlength := hnext.length_le
    refine (ih.ofExpression (hnext.trans htext) (by omega)).bind fun value middle hvalue => ?_
    have hmiddle := (passes_of_suffix hnext).trans (passes_of_expression hvalue)
    dsimp only
    split
    · exact faultsIn_error hopened hbrace
    · rename_i more hcomma
      have hmore := hmiddle.trans (passes_of_skipBlanks hcomma)
      have hlength' := hmore.2
      exact (ih.ofMembers hopened hbrace (hmore.1.trans htext) (by omega)).bind
        fun _ _ _ => faultsIn_ok _
    · exact faultsIn_ok _
    · rename_i hnil hcomma hend
      exact faultsIn_error ((suffix_of_skipBlanks rfl).trans (hmiddle.1.trans htext))
        ⟨head?_ne_some hcomma, head?_ne_some hend⟩

theorem FaultsWithin.items_succ (ih : FaultsWithin input fuel) (hopened : opened <:+ input)
    (hbracket : opened.head? = some '[') (htext : text <:+ input)
    (hfuel : 3 * text.length + 3 ≤ fuel + 1) : FaultsIn input (items (fuel + 1) opened text) := by
  rw [items]
  split
  · exact faultsIn_error hopened hbracket
  · exact faultsIn_ok _
  · have hstart : text.skipBlanks <:+ text := suffix_of_skipBlanks rfl
    have hlength := hstart.length_le
    refine (ih.ofExpression (hstart.trans htext) (by omega)).bind fun item middle hitem => ?_
    have hmiddle := (passes_of_suffix hstart).trans (passes_of_expression hitem)
    dsimp only
    split
    · exact faultsIn_error hopened hbracket
    · rename_i more hcomma
      have hmore := hmiddle.trans (passes_of_skipBlanks hcomma)
      have hlength' := hmore.2
      exact (ih.ofItems hopened hbracket (hmore.1.trans htext) (by omega)).bind
        fun _ _ _ => faultsIn_ok _
    · exact faultsIn_ok _
    · rename_i hnil hcomma hend
      exact faultsIn_error ((suffix_of_skipBlanks rfl).trans (hmiddle.1.trans htext))
        ⟨head?_ne_some hcomma, head?_ne_some hend⟩

end

/-- The faults of all five functions are in the text. -/
theorem faultsWithin (input : Text) (fuel : Nat) : FaultsWithin input fuel := by
  induction fuel with
  | zero => constructor <;> intros <;> omega
  | succ fuel ih =>
    exact ⟨ih.expression_succ, ih.pipeline_succ, ih.stage_succ, ih.members_succ, ih.items_succ⟩

/-- No bar is left behind a pipeline. -/
theorem Reads.head?_rest_ne_bar {stages : List Stage} {text rest : Text}
    (h : Reads (.pipeline stages) text rest) : rest.skipBlanks.head? ≠ some '|' := by
  induction stages generalizing text with
  | nil =>
    cases h with
    | done hend =>
      have hskip : text.skipBlanks.skipBlanks = text.skipBlanks :=
        List.dropWhile_idempotent isBlank text
      rwa [hskip]
  | cons first others ih =>
    cases h with
    | bar _ _ hothers => exact ih hothers

/-- The fault of a text that is no expression is in the text. -/
theorem faultsIn_read (text : Text) : FaultsIn text (read text) := by
  rw [read]
  split
  · exact faultsIn_error List.suffix_rfl trivial
  · have hfaults := (faultsWithin text (3 * text.length + 2)).ofExpression List.suffix_rfl
      (Nat.le_refl _)
    refine hfaults.bind fun stages rest hstages => ?_
    have hreads := @reads_of_yields _ [] text rest (.expression stages) hstages
    dsimp only
    split
    · exact faultsIn_ok _
    · rename_i hnil
      refine faultsIn_error ((suffix_of_skipBlanks rfl).trans hreads.passes.1) ⟨hnil, ?_⟩
      cases hreads with
      | expression _ hothers => exact hothers.head?_rest_ne_bar

/-! ## Errors -/

namespace Fault

variable {fault : Fault} {input : Text}

/-- The character at the position of a fault is the first of the text from its place. -/
theorem getElem?_position (h : fault.rest <:+ input) :
    input[fault.position input]? = fault.rest.head? := by
  obtain ⟨before, rfl⟩ := h
  have hposition : fault.position (before ++ fault.rest) = before.length := by
    rw [position, List.length_append]
    omega
  rw [hposition, List.getElem?_append_right (Nat.le_refl _), Nat.sub_self, List.head?_eq_getElem?]

theorem position_eq_length_iff (h : fault.rest <:+ input) :
    fault.position input = input.length ↔ fault.rest = [] := by
  have hlength := h.length_le
  rw [position, ← List.length_eq_zero_iff]
  omega

/-- What a fault has found is a character, unless its place is the end of the text. -/
theorem found_cases (fault : Fault) :
    fault.rest = [] ∧ fault.found = "EOF".toList ∨
      ∃ c, fault.rest.head? = some c ∧ fault.found = [c] := by
  unfold found
  split
  · rename_i c _ hrest
    exact .inr ⟨c, by rw [hrest, List.head?_cons], rfl⟩
  · rename_i hrest
    exact .inl ⟨hrest, rfl⟩

end Fault

/-- What the position of a reported error says about the text.

* A malformed text: the position is in the text or at its end, and where the message names a
  thing that was opened, the character that opened it stands there.
* An unexpected character: it is the one at the position, and none of those expected.  At the
  end of the text, and only there, the character is missing, and then the end was not expected.
* An unknown modifier: it stands at the position with all of its name, and unless an argument
  follows there is none of that name. -/
def Error.PointsInto (text : Text) : Error → Prop
  | .malformed message position input =>
      input = text ∧ position ≤ text.length ∧
        (message = "Unclosed object literal".toList → text[position]? = some '{') ∧
        (message = "Unclosed array literal".toList → text[position]? = some '[') ∧
        (message = "Unterminated quoted key".toList → text[position]? = some '"') ∧
        (message = "Unexpected end of input".toList → position = text.length)
  | .unexpected _ position input expected found =>
      input = text ∧ position ≤ text.length ∧
        (∀ c, text[position]? = some c → found = [c] ∧ ['\'', c, '\''] ∉ expected) ∧
        (found = "EOF".toList ↔ position = text.length) ∧
        (position = text.length → "end of input".toList ∉ expected)
  | .unknownModifier name position =>
      ∃ before after, text = before ++ '@' :: (name ++ after) ∧ position = before.length ∧
        (∀ c ∈ after.head?, c.isAlphanum = false ∧ c ≠ '_') ∧
        (after.head? ≠ some ':' → Modifier.ofName? name none = none)
  | .execution _ _ => False

/-- The messages that name what stands at the position, and what that is; nothing stands at
the end of the text. -/
def landmarks : List (Text × Option Char) :=
  [("Unclosed object literal".toList, some '{'), ("Unclosed array literal".toList, some '['),
    ("Unterminated quoted key".toList, some '"'), ("Unexpected end of input".toList, none)]

/-- All landmarks start with one letter, so that a message with another is told apart at once. -/
theorem ne_of_mem_landmarks {message : Text} (hhead : message.head? ≠ some 'U')
    {mark : Text × Option Char} (hmark : mark ∈ landmarks) : message ≠ mark.1 := by
  have hall : ∀ mark ∈ landmarks, mark.1.head? = some 'U' := by decide
  rintro rfl
  exact hhead (hall mark hmark)

section

variable {fault : Fault} {text : Text}

theorem pointsInto_malformed (h : fault.rest <:+ text) {message : Text}
    (hmarks : ∀ mark ∈ landmarks, message = mark.1 → fault.rest.head? = mark.2) :
    (Error.malformed message (fault.position text) text).PointsInto text := by
  rw [Error.PointsInto, Fault.getElem?_position h, Fault.position_eq_length_iff h]
  refine ⟨rfl, Nat.sub_le _ _, hmarks _ (.head _), hmarks _ (.tail _ (.head _)),
    hmarks _ (.tail _ (.tail _ (.head _))), fun hmessage => ?_⟩
  exact List.head?_eq_none_iff.1 (hmarks _ (.tail _ (.tail _ (.tail _ (.head _)))) hmessage)

theorem pointsInto_unexpected (h : fault.rest <:+ text) {message : Text} {expected : List Text}
    (hexpected : ∀ c, fault.rest.head? = some c → ['\'', c, '\''] ∉ expected)
    (hend : fault.rest = [] → "end of input".toList ∉ expected) :
    (Error.unexpected message (fault.position text) text expected fault.found).PointsInto text := by
  rw [Error.PointsInto, Fault.getElem?_position h, Fault.position_eq_length_iff h]
  refine ⟨rfl, Nat.sub_le _ _, ?_⟩
  rcases fault.found_cases with ⟨hrest, hfound⟩ | ⟨c, hhead, hfound⟩
  · refine ⟨fun c hc => ?_, iff_of_true hfound hrest, hend⟩
    rw [hrest] at hc
    exact absurd hc (by simp)
  · have hne : fault.rest ≠ [] := by
      intro hrest
      rw [hrest] at hhead
      exact absurd hhead (by simp)
    refine ⟨fun d hd => ?_, iff_of_false (by simp [hfound]) hne, hend⟩
    obtain rfl : c = d := Option.some.inj (hhead.symm.trans hd)
    exact ⟨hfound, hexpected c hd⟩

theorem pointsInto_unknownModifier {name : Text} (h : fault.rest <:+ text)
    (hfits : (Cause.unknownModifier name).Fits fault.rest) :
    (Error.unknownModifier name (fault.position text)).PointsInto text := by
  obtain ⟨before, hbefore⟩ := h
  obtain ⟨after, hrest, hname, hunknown⟩ := hfits
  refine ⟨before, after, by rw [← hrest, hbefore], ?_, ?_, hunknown⟩
  · rw [Fault.position, ← hbefore, List.length_append]
    omega
  · intro c hc
    simpa [isNameChar] using hname c hc

/-- A fault in a text is reported where it is. -/
theorem Fault.IsIn.pointsInto (h : fault.IsIn text) : (fault.toError text).PointsInto text := by
  obtain ⟨cause, rest⟩ := fault
  obtain ⟨hrest, hfits⟩ := h
  cases cause with
  | empty =>
    exact pointsInto_malformed hrest fun mark hmark heq =>
      absurd heq (ne_of_mem_landmarks (by decide) hmark)
  | argument name =>
    exact pointsInto_malformed hrest fun mark hmark heq =>
      absurd heq (ne_of_mem_landmarks (by simp) hmark)
  | endOfInput =>
    obtain rfl : rest = [] := hfits
    exact pointsInto_malformed hrest (by decide)
  | unclosedObject =>
    have hhead : rest.head? = some '{' := hfits
    exact pointsInto_malformed hrest (by rw [hhead]; decide)
  | unclosedArray =>
    have hhead : rest.head? = some '[' := hfits
    exact pointsInto_malformed hrest (by rw [hhead]; decide)
  | unterminatedKey =>
    have hhead : rest.head? = some '"' := hfits
    exact pointsInto_malformed hrest (by rw [hhead]; decide)
  | unknownModifier name => exact pointsInto_unknownModifier hrest hfits
  | afterExpression =>
    refine pointsInto_unexpected hrest (fun c hc => ?_) fun hnil => absurd hnil hfits.1
    have hbar : rest.head? ≠ some '|' := hfits.2
    rw [hc] at hbar
    simpa using hbar
  | notStage =>
    refine pointsInto_unexpected hrest (fun c hc => ?_) fun _ => by decide
    have hopen : rest.head? ≠ some '{' ∧ rest.head? ≠ some '[' := hfits
    rw [hc] at hopen
    simpa using hopen
  | insideObject =>
    refine pointsInto_unexpected hrest (fun c hc => ?_) fun _ => by decide
    have hnext : rest.head? ≠ some ',' ∧ rest.head? ≠ some '}' := hfits
    rw [hc] at hnext
    simpa using hnext
  | insideArray =>
    refine pointsInto_unexpected hrest (fun c hc => ?_) fun _ => by decide
    have hnext : rest.head? ≠ some ',' ∧ rest.head? ≠ some ']' := hfits
    rw [hc] at hnext
    simpa using hnext
  | notColon =>
    refine pointsInto_unexpected hrest (fun c hc => ?_) fun _ => by decide
    have hcolon : rest.head? ≠ some ':' := hfits
    rw [hc] at hcolon
    simpa using hcolon
  | notSegment =>
    refine pointsInto_unexpected hrest (fun c hc => ?_) fun _ => by decide
    have hhash : rest.head? ≠ some '#' := hfits
    rw [hc] at hhash
    simpa using hhash

end

/-- If a text is no expression, the error that is reported points at the real place. -/
theorem pointsInto_of_parse_eq_error {text : Text} {error : Error}
    (h : parse text = .error error) : error.PointsInto text := by
  unfold parse at h
  cases hread : read text with
  | ok stages =>
    rw [hread] at h
    exact absurd h (by simp [Except.mapError])
  | error fault =>
    rw [hread] at h
    obtain rfl : fault.toError text = error := Except.error.inj h
    exact (faultsIn_read text fault hread).pointsInto

instance (text : Text) (error : Error) : Decidable (parse text = .error error) :=
  match parse text with
  | .ok _ => .isFalse nofun
  | .error other => decidable_of_iff (other = error) (by simp)

/-- A literal that is not closed, behind a character of two bytes. -/
def unclosedText : Text := "[ü, \x7bk:v ".toList

def unclosedError : Error :=
  .malformed "Unclosed object literal".toList 4 unclosedText

/-- A path that ends in a dot. -/
def danglingText : Text := "ü.".toList

def danglingError : Error :=
  .unexpected "Empty path segment".toList 2 danglingText
    ["key".toList, "'#'".toList, "modifier".toList] "EOF".toList

/-- A name that starts like that of a modifier, behind a key with an escape. -/
def misnamedText : Text := "\x7b\"ü\\\"\" : a.@this_ \x7d".toList

theorem pointsInto_of_parse_eq_error_kinds :
    (parse unclosedText = .error unclosedError ∧ unclosedError.PointsInto unclosedText) ∧
      (parse danglingText = .error danglingError ∧ danglingError.PointsInto danglingText) ∧
      parse misnamedText = .error (.unknownModifier "this_".toList 11) ∧
      (Error.unknownModifier "this_".toList 11).PointsInto misnamedText := by
  have hunclosed : parse unclosedText = .error unclosedError := by decide +kernel
  have hdangling : parse danglingText = .error danglingError := by decide +kernel
  have hmisnamed : parse misnamedText = .error (.unknownModifier "this_".toList 11) := by
    decide +kernel
  exact ⟨⟨hunclosed, pointsInto_of_parse_eq_error hunclosed⟩,
    ⟨hdangling, pointsInto_of_parse_eq_error hdangling⟩,
    hmisnamed, pointsInto_of_parse_eq_error hmisnamed⟩

end Projection

end Reshape
