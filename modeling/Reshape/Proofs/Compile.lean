import Reshape.Proofs.TargetTree

/-!
# The expression of a target tree

Rules are compiled to a text, and the text is read again before it is evaluated.
`Slot.stages` gives the expression of a target tree directly, and
`Slot.renders` says that the text which compiling writes reads as that
expression.  What a compiled rule set does on a document is then a matter of
evaluating `Slot.stages`.

A level of a tree is regular if its keys are distinct plain keys, or if it holds
the key `#` alone.  On other levels the text has members without keys, and these
are left out here.
-/

namespace Reshape

/-! ## Sources -/

/-- The modifiers that coerce to a type, by the name of the type. -/
def Modifier.byType : List (Text × Modifier) :=
  [("int".toList, .toNumber), ("integer".toList, .toNumber), ("number".toList, .toNumber),
   ("float".toList, .toNumber), ("bool".toList, .toBool), ("boolean".toList, .toBool),
   ("string".toList, .toText)]

/-- The modifier that coerces to a type, up to the case of ASCII letters. -/
def Modifier.ofType? (type : Text) : Option Modifier :=
  byType.lookup type.foldCase

/-- The steps to the value of a rule: its source, where an empty one stands for the
whole document, and the coercion to the type of its target. -/
def Rule.steps? (rule : Rule) : Option (List Segment) :=
  (if rule.source.path = [] then some [.modifier .this] else Path.steps? rule.source.path).map
    (· ++ (Modifier.ofType? rule.target.type).toList.map .modifier)

theorem Coercions.find_standard (type : Text) :
    (standard.find type).map (·.suffix) =
      (Modifier.ofType? type).map fun modifier => '.' :: modifier.text := by
  have hstandard : standard =
      Modifier.byType.map fun entry => ⟨entry.1, '.' :: entry.2.text⟩ := by decide
  have hlower : ∀ entry ∈ Modifier.byType, entry.1.foldCase = entry.1 := by decide
  rw [hstandard, Modifier.ofType?]
  clear hstandard
  generalize Modifier.byType = table at hlower ⊢
  induction table with
  | nil => rfl
  | cons entry table ih =>
    obtain ⟨name, modifier⟩ := entry
    have hname : name.foldCase = name := hlower (name, modifier) (by simp)
    have hrest := ih fun entry hentry => hlower entry (by simp [hentry])
    simp only [find, Text.sameLetters, List.map_cons, List.find?_cons, List.lookup_cons,
      hname] at hrest ⊢
    by_cases heq : type.foldCase = name
    · simp [heq]
    · rw [beq_false_of_ne heq, beq_false_of_ne (Ne.symm heq)]
      exact hrest

/-- The steps of a path that is extended at its end. -/
theorem Path.steps?_append_dot (path rest : Path) :
    steps? (path ++ '.' :: rest) =
      (steps? path).bind fun first => (steps? rest).map (first ++ ·) := by
  rw [steps?, segments_append_dot, List.mapM_append]
  simp [steps?, Option.map_eq_bind]

/-- The source of a rule is written as the steps to its value. -/
theorem Rule.steps?_coercedSource (rule : Rule) :
    Path.steps? (rule.coercedSource .standard) = rule.steps? := by
  have hpath : Path.steps? (if rule.source.path.isEmpty then "@this".toList else rule.source.path) =
      if rule.source.path = [] then some [.modifier .this]
      else Path.steps? rule.source.path := by
    by_cases hempty : rule.source.path = []
    · simp only [hempty, List.isEmpty_nil, if_true]
      decide
    · simp [hempty]
  have hmodifier : ∀ entry ∈ Modifier.byType,
      Path.steps? entry.2.text = some [.modifier entry.2] := by decide
  rw [steps?, coercedSource, Coercions.find_standard]
  cases htype : Modifier.ofType? rule.target.type with
  | none =>
    simp only [Option.map_none, Option.getD_none, List.append_nil, hpath]
    simp
  | some modifier =>
    have hmem := mem_of_lookup htype
    simp only [Option.map_some, Option.getD_some]
    rw [Path.steps?_append_dot, hpath, hmodifier _ hmem]
    simp [Option.map_eq_bind]

/-! ## Groupings -/

/-- The stage that groups columns inside `depth` arrays. -/
def TargetTree.groupingStage (depth : Nat) : Stage :=
  .path [.modifier (.groupPlus (depth - 1))]

theorem TargetTree.steps?_groupPlus {levels : Nat} (h : levels < 2 ^ 64) :
    Path.steps? ("@groupPlus:".toList ++ Text.ofNat levels) =
      some [.modifier (.groupPlus levels)] := by
  have hdot : '.' ∉ "@groupPlus:".toList ++ Text.ofNat levels := by
    rw [List.mem_append]
    rintro (hm | hm)
    · revert hm
      decide
    · exact absurd (Text.isDigit_of_mem_ofNat hm) (by decide)
  rw [Path.steps?, Path.segments, Text.split_of_notMem hdot, List.mapM_cons, List.mapM_nil,
    Projection.ofText?_groupPlus (Text.word?_ofNat h)]
  rfl

theorem TargetTree.renders_grouping {depth : Nat} (h : depth ≤ 2 ^ 64) :
    Projection.RendersStage ("@groupPlus:".toList ++ Text.ofNat (depth - 1))
      (groupingStage depth) :=
  .path (steps?_groupPlus (by omega))

/-! ## The expression -/

mutual

/-- The expression of the value of a slot under a key.  `inArray` tells whether
its level stands directly under a `#`, and `depth` counts the arrays around
it. -/
def Slot.stages (inArray : Bool) (depth : Nat) (key : Text) : Slot → Expression
  | .leaf source => [.path ((Path.steps? source).getD [])]
  | .branch entries =>
      let isElement : Bool := key = Path.each
      let members := TargetTree.members isElement depth entries
      let body : Expression :=
        if TargetTree.isArray entries then members.flatMap (·.2)
        else .object members :: if inArray then [TargetTree.groupingStage depth] else []
      if isElement then body ++ [TargetTree.groupingStage depth] else body

/-- The keys of a level with the expressions of their values. -/
def TargetTree.members (inArray : Bool) (depth : Nat) : TargetTree → List (Text × Expression)
  | [] => []
  | (key, slot) :: rest =>
      let depth := if key = Path.each && slot.isBranch then depth + 1 else depth
      (key, slot.stages inArray depth key) :: TargetTree.members inArray depth rest

end

mutual

/-- The number of arrays that are nested in a slot. -/
def Slot.arrays : Slot → Nat
  | .leaf _ => 0
  | .branch entries => TargetTree.arrays entries

/-- The number of arrays that are nested in the slots of a level. -/
def TargetTree.arrays : TargetTree → Nat
  | [] => 0
  | (key, slot) :: rest =>
      max (slot.arrays + if key = Path.each && slot.isBranch then 1 else 0)
        (TargetTree.arrays rest)

end

/-- The text of an entry without its key. -/
def Slot.valueText (inArray : Bool) (depth : Nat) (key : Text) : Slot → Text
  | .leaf source => source
  | .branch entries =>
      let isElement : Bool := key = Path.each
      let body := Text.join [','] (TargetTree.parts isElement depth entries)
      let body :=
        if TargetTree.isArray entries then body
        else if inArray then '{' :: body ++ '}' :: TargetTree.grouping depth
        else '{' :: body ++ ['}']
      if isElement then body ++ TargetTree.grouping depth else body

theorem Slot.expression_eq_labelled (inArray : Bool) (depth : Nat) (key : Text) (slot : Slot) :
    slot.expression inArray depth key =
      TargetTree.labelled key (slot.valueText inArray depth key) := by
  cases slot with
  | leaf source => simp [Slot.expression, Slot.valueText]
  | branch entries =>
    by_cases hkey : key = Path.each
    · simp [Slot.expression, Slot.valueText, TargetTree.labelled, hkey]
    · simp [Slot.expression, Slot.valueText, hkey]

namespace TargetTree

theorem labelled_of_isPlain {key : Text} (h : key.isPlain = true) (value : Text) :
    labelled key value = key ++ ':' :: value := by
  have hne := Text.ne_nil_of_isPlain h
  have heach := Path.ne_each_of_isPlain h
  simp [labelled, hne, heach]

theorem isArray_of_isPlain {tree : TargetTree} (h : tree.IsPlain) : isArray tree = false := by
  simp only [isArray, List.any_eq_false, decide_eq_true_eq]
  intro entry hentry
  exact Path.ne_each_of_isPlain (h.2.2 entry.1 (List.mem_map_of_mem hentry))

/-- Without arrays on a level the entries are written one by one. -/
theorem parts_of_isPlain {tree : TargetTree} (h : ∀ key ∈ tree.keys, key.isPlain = true)
    (inArray : Bool) (depth : Nat) :
    parts inArray depth tree =
      tree.map fun entry => entry.1 ++ ':' :: entry.2.valueText inArray depth entry.1 := by
  induction tree with
  | nil => rfl
  | cons entry tree ih =>
    obtain ⟨key, slot⟩ := entry
    have hkey : key.isPlain = true := h key (by simp [keys])
    have heach := Path.ne_each_of_isPlain hkey
    rw [parts]
    simp only [heach, decide_false, Bool.false_and, Bool.false_eq_true, if_false, List.map_cons]
    rw [ih fun k hk => h k (List.mem_cons_of_mem _ hk),
      Slot.expression_eq_labelled, labelled_of_isPlain hkey]

theorem members_of_isPlain {tree : TargetTree} (h : ∀ key ∈ tree.keys, key.isPlain = true)
    (inArray : Bool) (depth : Nat) :
    members inArray depth tree =
      tree.map fun entry => (entry.1, entry.2.stages inArray depth entry.1) := by
  induction tree with
  | nil => rfl
  | cons entry tree ih =>
    obtain ⟨key, slot⟩ := entry
    have hkey : key.isPlain = true := h key (by simp [keys])
    have heach := Path.ne_each_of_isPlain hkey
    rw [members]
    simp only [heach, decide_false, Bool.false_and, Bool.false_eq_true, if_false, List.map_cons]
    rw [ih fun k hk => h k (List.mem_cons_of_mem _ hk)]

/-- The levels whose text is read back as it is meant: distinct plain keys, or the
key `#` alone. -/
def IsRegular (tree : TargetTree) : Prop :=
  tree.IsPlain ∨ ∃ slot, tree = [(Path.each, slot)]

theorem arrays_of_mem {tree : TargetTree} {key : Text} {slot : Slot} (h : (key, slot) ∈ tree) :
    slot.arrays ≤ tree.arrays := by
  induction tree with
  | nil => simp at h
  | cons entry tree ih =>
    obtain ⟨k, s⟩ := entry
    rw [arrays]
    rcases List.mem_cons.1 h with heq | hmem
    · cases heq
      omega
    · have := ih hmem
      omega

/-- There are no arrays in a tree of plain keys. -/
theorem arrays_of_isPlain {source : Text → Prop} {slot : Slot} (h : slot.Every IsPlain source) :
    slot.arrays = 0 := by
  induction slot using Slot.induction with
  | leaf text => rfl
  | branch entries ih =>
    rw [Slot.Every, every_iff] at h
    obtain ⟨⟨-, -, hkeys⟩, hentries⟩ := h
    rw [Slot.arrays]
    induction entries with
    | nil => rfl
    | cons entry entries ihRest =>
      have hzero := ih entry (by simp) (hentries entry (by simp))
      have heach := Path.ne_each_of_isPlain (hkeys entry.1 (by simp [keys]))
      rw [arrays, hzero, ihRest (fun other hother => ih other (by simp [hother]))
        (fun other hother => hentries other (by simp [hother]))
        (fun k hk => hkeys k (List.mem_cons_of_mem _ hk))]
      simp [heach]

end TargetTree

namespace Slot

variable {entries : TargetTree} {slot : Slot}

/-- On a level of plain keys the stages are an object literal and its
groupings. -/
theorem stages_of_isPlain (h : entries.IsPlain) (inArray : Bool) (depth : Nat) (key : Text) :
    (branch entries).stages inArray depth key =
      (.object (entries.map fun entry =>
          (entry.1, entry.2.stages (key = Path.each) depth entry.1)) ::
        if inArray then [TargetTree.groupingStage depth] else []) ++
      if key = Path.each then [TargetTree.groupingStage depth] else [] := by
  rw [stages]
  simp only [TargetTree.isArray_of_isPlain h, TargetTree.members_of_isPlain h.2.2,
    Bool.false_eq_true, if_false, decide_eq_true_eq]
  split <;> simp

theorem valueText_of_isPlain (h : entries.IsPlain) (inArray : Bool) (depth : Nat) (key : Text) :
    (branch entries).valueText inArray depth key =
      ('{' :: Text.join [','] (entries.map fun entry =>
          entry.1 ++ ':' :: entry.2.valueText (key = Path.each) depth entry.1) ++ ['}']) ++
        (if inArray then TargetTree.grouping depth else []) ++
      if key = Path.each then TargetTree.grouping depth else [] := by
  rw [valueText]
  simp only [TargetTree.isArray_of_isPlain h, TargetTree.parts_of_isPlain h.2.2,
    Bool.false_eq_true, if_false, decide_eq_true_eq]
  split <;> split <;> simp

/-- The number of arrays that an entry under `#` opens. -/
def opened (slot : Slot) : Nat :=
  if slot.isBranch then 1 else 0

/-- On a level that stands for an array the stages are those of its elements. -/
theorem stages_each (inArray : Bool) (depth : Nat) (key : Text) :
    (branch [(Path.each, slot)]).stages inArray depth key =
      slot.stages (key = Path.each) (depth + slot.opened) Path.each ++
      if key = Path.each then [TargetTree.groupingStage depth] else [] := by
  rw [stages]
  cases slot <;> by_cases hkey : key = Path.each <;>
    simp [TargetTree.isArray, TargetTree.members, hkey, opened, isBranch]

theorem valueText_each (inArray : Bool) (depth : Nat) (key : Text) :
    (branch [(Path.each, slot)]).valueText inArray depth key =
      slot.valueText (key = Path.each) (depth + slot.opened) Path.each ++
      if key = Path.each then TargetTree.grouping depth else [] := by
  rw [valueText]
  cases slot <;> by_cases hkey : key = Path.each <;>
    simp [TargetTree.isArray, TargetTree.parts, hkey, opened, isBranch,
      expression_eq_labelled, TargetTree.labelled, Text.join_singleton]

end Slot

open Projection

/-- A grouping may follow any expression. -/
theorem TargetTree.renders_pipe_grouping {text : Text} {expression : Expression}
    (h : Renders text expression) {depth : Nat} (hdepth : depth ≤ 2 ^ 64)
    (grouped : Prop) [Decidable grouped] :
    Renders (text ++ if grouped then grouping depth else [])
      (expression ++ if grouped then [groupingStage depth] else []) := by
  split
  · exact h.pipe (renders_grouping hdepth)
  · simpa using h

/-- The text of a slot reads as its expression. -/
theorem Slot.renders {slot : Slot}
    (h : slot.Every TargetTree.IsRegular Path.IsReadable)
    {depth : Nat} (harrays : depth + slot.arrays ≤ 2 ^ 64) (inArray : Bool) (key : Text) :
    Renders (slot.valueText inArray depth key) (slot.stages inArray depth key) := by
  induction slot using Slot.induction generalizing depth inArray key with
  | leaf source =>
    rw [Slot.Every] at h
    obtain ⟨steps, hsteps⟩ := Option.isSome_iff_exists.1 h
    rw [valueText, stages, hsteps]
    exact (RendersStage.path hsteps).renders
  | branch entries ih =>
    rw [Slot.Every] at h
    obtain ⟨hlevel, hentries⟩ := h
    rw [TargetTree.every_iff] at hentries
    rw [Slot.arrays] at harrays
    rcases hlevel with hplain | ⟨slot, rfl⟩
    · rw [stages_of_isPlain hplain, valueText_of_isPlain hplain]
      have hmembers : List.Forall₂ RendersMember
          (entries.map fun entry =>
            entry.1 ++ ':' :: entry.2.valueText (key = Path.each) depth entry.1)
          (entries.map fun entry =>
            (entry.1, entry.2.stages (key = Path.each) depth entry.1)) := by
        rw [List.forall₂_map_left_iff, List.forall₂_map_right_iff, List.forall₂_same]
        intro entry hentry
        have hbound := TargetTree.arrays_of_mem hentry
        exact ⟨_, rfl, hplain.2.2 _ (List.mem_map_of_mem hentry),
          ih entry hentry (hentries entry hentry) (by omega) _ _⟩
      exact TargetTree.renders_pipe_grouping
        (TargetTree.renders_pipe_grouping (RendersStage.object hmembers).renders (by omega) _)
        (by omega) _
    · rw [stages_each, valueText_each]
      have hopened : TargetTree.arrays [(Path.each, slot)] = slot.arrays + slot.opened := by
        simp [TargetTree.arrays, opened]
      have hbound : depth + slot.opened + slot.arrays ≤ 2 ^ 64 := by omega
      exact TargetTree.renders_pipe_grouping
        (ih (Path.each, slot) (by simp) (hentries _ (by simp)) hbound _ _) (by omega) _

/-! ## Nesting -/

namespace Text

/-- The largest excess of opening over closing brackets, over all prefixes of a
text. -/
def nesting : Text → Nat
  | [] => 0
  | c :: rest =>
      if c = '{' ∨ c = '[' then nesting rest + 1
      else if c = '}' ∨ c = ']' then nesting rest - 1
      else nesting rest

/-- The brackets of a text are balanced, and `n` of them are open at most. -/
def Nests (text : Text) (n : Nat) : Prop :=
  ∀ rest, nesting (text ++ rest) = max n (nesting rest)

def brackets : List Char := ['{', '[', '}', ']']

/-- A bracket is a delimiter, and no character of a plain key or a number. -/
theorem of_mem_brackets {c : Char} (h : c ∈ brackets) :
    Projection.isDelimiter c = true ∧ isPlainChar c = false ∧ c.isDigit = false := by
  simp only [brackets, List.mem_cons, List.not_mem_nil, or_false] at h
  rcases h with rfl | rfl | rfl | rfl <;> decide

theorem Nests.of_free {text : Text} (h : ∀ c ∈ text, c ∉ brackets) : Nests text 0 := by
  intro rest
  rw [Nat.zero_max]
  induction text with
  | nil => rfl
  | cons c text ih =>
    have hc := h c (by simp)
    simp only [brackets, List.mem_cons, List.not_mem_nil, or_false, not_or] at hc
    rw [List.cons_append, nesting, if_neg (by simp [hc]), if_neg (by simp [hc])]
    exact ih fun d hd => h d (by simp [hd])

theorem Nests.append {left right : Text} {m n : Nat} (hleft : Nests left m)
    (hright : Nests right n) : Nests (left ++ right) (max m n) := by
  intro rest
  rw [List.append_assoc, hleft, hright, Nat.max_assoc]

theorem Nests.braces {text : Text} {n : Nat} (h : Nests text n) :
    Nests ('{' :: text ++ ['}']) (1 + n) := by
  intro rest
  have hopen : ∀ t, nesting ('{' :: t) = nesting t + 1 := by simp [nesting]
  have hclose : ∀ t, nesting ('}' :: t) = nesting t - 1 := by simp [nesting]
  rw [List.append_assoc, List.cons_append, hopen, List.singleton_append, h, hclose]
  omega

theorem nests_label {key : Text} (h : key.isPlain = true) : Nests (key ++ [':']) 0 := by
  apply Nests.of_free
  intro c hc hbracket
  rw [List.mem_append, List.mem_singleton] at hc
  rcases hc with hmem | rfl
  · have hchar := isPlainChar_of_mem h hmem
    rw [(of_mem_brackets hbracket).2.1] at hchar
    exact absurd hchar (by decide)
  · exact absurd hbracket (by decide)

end Text

/-- The members of a literal are nested as deeply as their texts. -/
theorem Stage.nests_members {texts : List Text} {list : List (Text × Expression)}
    (h : List.Forall₂ (fun text member => Text.Nests text (Expression.depth member.2))
      texts list) :
    Text.Nests (Text.join [','] texts) (Stage.depthOfMembers list) := by
  induction h with
  | nil => exact .of_free (by simp)
  | @cons text member texts list hfirst hothers ih =>
    obtain ⟨key, value⟩ := member
    rw [Stage.depthOfMembers]
    cases hothers with
    | nil => simpa [Stage.depthOfMembers] using hfirst
    | cons =>
      have hcomma : Text.Nests [','] 0 := .of_free (by simp [Text.brackets])
      have := (hfirst.append hcomma).append ih
      rwa [Nat.max_zero, ← Text.join_cons _ (by simp)] at this

theorem Expression.depth_append (first second : Expression) :
    Expression.depth (first ++ second) =
      max (Expression.depth first) (Expression.depth second) := by
  induction first with
  | nil => simp [Expression.depth]
  | cons stage first ih => rw [List.cons_append, Expression.depth, ih, Expression.depth,
      Nat.max_assoc]

theorem TargetTree.nests_grouping (depth : Nat) (grouped : Prop) [Decidable grouped] :
    Text.Nests (if grouped then grouping depth else [])
      (Expression.depth (if grouped then [groupingStage depth] else [])) := by
  split
  · have hdepth : Expression.depth [groupingStage depth] = 0 := by
      simp [Expression.depth, groupingStage, Stage.depth]
    rw [hdepth]
    apply Text.Nests.of_free
    intro c hc
    unfold grouping at hc
    rcases List.mem_append.1 hc with htext | hdigits
    · have hfree : "|@groupPlus:".toList.all (fun c => decide (c ∉ Text.brackets)) = true := by
        decide
      exact of_decide_eq_true (List.all_eq_true.1 hfree c htext)
    · intro hbracket
      have hdigit := Text.isDigit_of_mem_ofNat hdigits
      rw [(Text.of_mem_brackets hbracket).2.2] at hdigit
      exact absurd hdigit (by decide)
  · exact .of_free (by simp)

/-- The expression of a slot is nested as deeply as the brackets of its text. -/
theorem Slot.nests {slot : Slot}
    (h : slot.Every TargetTree.IsRegular Path.IsReadable)
    (inArray : Bool) (depth : Nat) (key : Text) :
    Text.Nests (slot.valueText inArray depth key)
      (Expression.depth (slot.stages inArray depth key)) := by
  induction slot using Slot.induction generalizing depth inArray key with
  | leaf source =>
    rw [Slot.Every] at h
    obtain ⟨steps, hsteps⟩ := Option.isSome_iff_exists.1 h
    have hdepth : Expression.depth [Stage.path ((some steps).getD [])] = 0 := by
      simp [Expression.depth, Stage.depth]
    rw [valueText, stages, hsteps, hdepth]
    apply Text.Nests.of_free
    intro c hc hbracket
    have hdelimiter := isDelimiter_of_mem_steps? hsteps hc
    rw [(Text.of_mem_brackets hbracket).1] at hdelimiter
    exact absurd hdelimiter (by decide)
  | branch entries ih =>
    rw [Slot.Every] at h
    obtain ⟨hlevel, hentries⟩ := h
    rw [TargetTree.every_iff] at hentries
    rcases hlevel with hplain | ⟨slot, rfl⟩
    · rw [stages_of_isPlain hplain, valueText_of_isPlain hplain, Expression.depth_append,
        Expression.depth, Stage.depth]
      have hmembers : List.Forall₂
          (fun text (member : Text × Expression) =>
            Text.Nests text (Expression.depth member.2))
          (entries.map fun entry =>
            entry.1 ++ ':' :: entry.2.valueText (key = Path.each) depth entry.1)
          (entries.map fun entry =>
            (entry.1, entry.2.stages (key = Path.each) depth entry.1)) := by
        rw [List.forall₂_map_left_iff, List.forall₂_map_right_iff, List.forall₂_same]
        intro entry hentry
        have hkey := Text.nests_label (hplain.2.2 _ (List.mem_map_of_mem hentry))
        have hvalue := hkey.append
          (ih entry hentry (hentries entry hentry) (key = Path.each) depth entry.1)
        simpa using hvalue
      exact (((Stage.nests_members hmembers).braces.append
        (TargetTree.nests_grouping _ _))).append (TargetTree.nests_grouping _ _)
    · rw [stages_each, valueText_each, Expression.depth_append]
      exact (ih (Path.each, slot) (by simp) (hentries _ (by simp)) _ _ _).append
        (TargetTree.nests_grouping _ _)

/-! ## Rule sets -/

namespace TargetTree

/-- Paths that start with one key lead into the slot under that key. -/
theorem ofInserts_map_cons (key : Text) {inserts : List (List Text × Text)}
    (hinserts : inserts ≠ []) (hne : ∀ entry ∈ inserts, entry.1 ≠ []) :
    ofInserts (inserts.map fun entry => (key :: entry.1, entry.2)) =
      [(key, .branch (ofInserts inserts))] := by
  induction inserts using List.reverseRecOn with
  | nil => exact absurd rfl hinserts
  | append_singleton inserts entry ih =>
    obtain ⟨keys, source⟩ := entry
    obtain ⟨next, rest, rfl⟩ := List.exists_cons_of_ne_nil (hne (keys, source) (by simp))
    rw [List.map_append, List.map_singleton, ofInserts_append, ofInserts_append]
    by_cases hempty : inserts = []
    · subst hempty
      rfl
    · rw [ih hempty fun entry hentry => hne entry (by simp [hentry])]
      simp [insert, alter, Slot.entries]

end TargetTree

namespace RuleSet

/-- The places that the rules fill, with the sources of their values. -/
def placements (coercions : Coercions) (rules : RuleSet) : List (List Text × Text) :=
  rules.map fun rule => (Path.segments rule.target.path, rule.coercedSource coercions)

/-- The tree of the target paths, below the root. -/
def fields (coercions : Coercions) (rules : RuleSet) : TargetTree :=
  TargetTree.ofInserts (rules.placements coercions)

theorem targetTree_eq {coercions : Coercions} {rules : RuleSet} (hne : rules ≠ [])
    (hkeys : ∀ rule ∈ rules,
      Rule.targetKeys rule.target.path = [] :: Path.segments rule.target.path) :
    rules.targetTree coercions = [([], .branch (rules.fields coercions))] := by
  have hinserts : (rules.placements coercions).map (fun entry => ([] :: entry.1, entry.2)) =
      rules.map fun rule => (Rule.targetKeys rule.target.path, rule.coercedSource coercions) := by
    rw [placements, List.map_map]
    exact List.map_congr_left fun rule hrule => by simp [hkeys rule hrule]
  have hnonempty : ∀ entry ∈ rules.placements coercions, entry.1 ≠ [] := by
    intro entry hentry
    obtain ⟨rule, -, rfl⟩ := List.mem_map.1 hentry
    exact Path.segments_ne_nil _
  rw [fields, ← TargetTree.ofInserts_map_cons [] (by simpa [placements] using hne) hnonempty,
    hinserts, targetTree, TargetTree.ofInserts, List.foldl_map]

/-- Rules with target paths below the root compile to the text of one
literal. -/
theorem compile_eq {coercions : Coercions} {rules : RuleSet} (hne : rules ≠ [])
    (hkeys : ∀ rule ∈ rules,
      Rule.targetKeys rule.target.path = [] :: Path.segments rule.target.path)
    (hpath : ∀ rule ∈ rules, rule.target.path ≠ []) :
    rules.compile coercions =
      (Slot.branch (rules.fields coercions)).valueText false 0 [] := by
  have hwhole : Text.join [','] (TargetTree.parts false 0 (rules.targetTree coercions)) =
      (Slot.branch (rules.fields coercions)).valueText false 0 [] := by
    rw [targetTree_eq hne hkeys]
    simp [TargetTree.parts, Slot.expression_eq_labelled, TargetTree.labelled,
      Text.join_singleton, Path.each]
  rw [← hwhole]
  unfold compile
  split
  · exact absurd rfl hne
  · rename_i rule
    simp [hpath rule (by simp)]
  · rfl

end RuleSet

end Reshape
