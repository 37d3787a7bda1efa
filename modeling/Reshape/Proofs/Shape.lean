import Reshape.Proofs.Columns
import Reshape.Proofs.Compile

/-!
# Identity rules over a shape

A shape says which members a document has: leaves, objects and arrays of objects.
Its identity rules send every leaf to its own path.  Compiled, they take a document
apart into columns, one for each leaf, and put the columns together again.
`Shape.get_compile_rules` says that this gives back the document, restricted to the
shape and with its leaves coerced.

The proof has three parts.

* `Shape.fields_rules`: the rules make the tree `Shape.slots`, which follows the
  shape.
* `Shape.every_slot` and `Shape.arrays_le_depth`: the tree is regular, so its text
  reads as its expression.
* `Shape.eval?_slot`: evaluating the expression of a part of the tree gives the
  column of that part, restricted.
-/

namespace Reshape

/-! ## Shapes -/

/-- The members of a document. -/
inductive Shape where
  | leaf (type : Text)
  | object (fields : List (Text × Shape))
  /-- An array of objects. -/
  | array (fields : List (Text × Shape))

/-- Where a field stands. -/
inductive Position where
  /-- Outside all arrays. -/
  | free
  /-- In an element of an array. -/
  | element
  /-- In an object that is a field of an element. -/
  | part
deriving DecidableEq

/-- Where the fields of an object stand.  An object in a part is no shape that
grouping can restore. -/
def Position.inside? : Position → Option Position
  | .free => some .free
  | .element => some .part
  | .part => none

theorem Position.inside?_ne_element {position inside : Position}
    (h : position.inside? = some inside) : inside ≠ .element := by
  cases position <;> simp [inside?] at h <;> simp [← h]

theorem Position.eq_free_of_inside? {position : Position}
    (h : position.inside? = some .free) : position = .free := by
  cases position <;> simp [inside?] at h ⊢

/-- A value after its coercion to a type. -/
def Document.coerce (type : Text) (d : Document) : Document :=
  ((Modifier.ofType? type).bind (·.act? d)).getD d

namespace Shape

/-- Induction over the fields of a shape. -/
theorem induction {motive : Shape → Prop} (leaf : ∀ type, motive (.leaf type))
    (object : ∀ fields, (∀ field ∈ fields, motive field.2) → motive (.object fields))
    (array : ∀ fields, (∀ field ∈ fields, motive field.2) → motive (.array fields)) :
    ∀ shape, motive shape
  | .leaf type => leaf type
  | .object fields => object fields fun field _ => induction leaf object array field.2
  | .array fields => array fields fun field _ => induction leaf object array field.2
decreasing_by
  all_goals
    have hmem : field ∈ fields := by assumption
    have hlt := List.sizeOf_lt_of_mem hmem
    have hpair : sizeOf field = 1 + sizeOf field.1 + sizeOf field.2 := Prod.mk.sizeOf_spec ..
  · rw [Shape.object.sizeOf_spec]
    omega
  · rw [Shape.array.sizeOf_spec]
    omega

/-- The keys of an object: distinct plain keys, at least one. -/
def areKeys (keys : List Text) : Bool :=
  !keys.isEmpty && decide keys.Nodup && keys.all Text.isPlain

mutual

/-- Whether a shape may stand at a position. -/
def isValid : Position → Shape → Bool
  | _, .leaf _ => true
  | position, .object fields =>
      match position.inside? with
      | some inside => areKeys (fields.map (·.1)) && areValid inside fields
      | none => false
  | _, .array fields => areKeys (fields.map (·.1)) && areValid .element fields

def areValid (position : Position) : List (Text × Shape) → Bool
  | [] => true
  | (_, shape) :: rest => shape.isValid position && areValid position rest

end

mutual

/-- Whether a document has all members of a shape. -/
def fits : Shape → Document → Bool
  | .leaf _, _ => true
  | .object fields, d => fitAll fields d
  | .array fields, d =>
      match d with
      | .array items => items.all (fitAll fields)
      | _ => false

/-- Whether a document is an object with all the given fields. -/
def fitAll : List (Text × Shape) → Document → Bool
  | [], d =>
      match d with
      | .object _ => true
      | _ => false
  | (key, shape) :: rest, d =>
      ((Members.get? d.membersOrNone key).map shape.fits).getD false && fitAll rest d

end

mutual

/-- The part of a document that a shape describes, with its leaves coerced. -/
def restrict : Shape → Document → Document
  | .leaf type, d => d.coerce type
  | .object fields, d => .object (restrictAll fields d)
  | .array fields, d =>
      .array ((d.items?.getD []).map fun item => .object (restrictAll fields item))

def restrictAll : List (Text × Shape) → Document → Members
  | [], _ => []
  | (key, shape) :: rest, d => (key, shape.restrict (d.member key)) :: restrictAll rest d

end

mutual

/-- The paths from a shape to its leaves, with the types of the leaves. -/
def leaves : Shape → List (List Text × Text)
  | .leaf type => [([], type)]
  | .object fields => leavesOf fields
  | .array fields => (leavesOf fields).map fun leaf => (Path.each :: leaf.1, leaf.2)

def leavesOf : List (Text × Shape) → List (List Text × Text)
  | [] => []
  | (key, shape) :: rest =>
      shape.leaves.map (fun leaf => (key :: leaf.1, leaf.2)) ++ leavesOf rest

end

/-- The rule that sends a value to its own path, coerced to a type. -/
def identityRule (path : List Text) (type : Text) : Rule :=
  ⟨⟨Path.ofSegments path, []⟩, ⟨Path.ofSegments path, type⟩⟩

/-- The identity rules of all leaves of a shape. -/
def rules (shape : Shape) : RuleSet :=
  shape.leaves.map fun leaf => identityRule leaf.1 leaf.2

/-! ## Fields -/

section

variable {fields : List (Text × Shape)}

theorem areKeys_iff {keys : List Text} :
    areKeys keys = true ↔ keys ≠ [] ∧ keys.Nodup ∧ ∀ key ∈ keys, key.isPlain = true := by
  simp [areKeys, and_assoc]

theorem areValid_iff {position : Position} :
    areValid position fields = true ↔ ∀ field ∈ fields, field.2.isValid position = true := by
  induction fields with
  | nil => simp [areValid]
  | cons field fields ih => simp [areValid, ih]

theorem leavesOf_eq (fields : List (Text × Shape)) :
    leavesOf fields =
      fields.flatMap fun field =>
        field.2.leaves.map fun leaf => (field.1 :: leaf.1, leaf.2) := by
  induction fields with
  | nil => rfl
  | cons field fields ih => rw [leavesOf, ih, List.flatMap_cons]

theorem restrictAll_eq (fields : List (Text × Shape)) (d : Document) :
    restrictAll fields d =
      fields.map fun field => (field.1, field.2.restrict (d.member field.1)) := by
  induction fields with
  | nil => rfl
  | cons field fields ih => rw [restrictAll, ih, List.map_cons]

theorem fitAll_iff {d : Document} :
    fitAll fields d = true ↔ ∃ members, d = .object members ∧
      ∀ field ∈ fields, ∃ value,
        Members.get? members field.1 = some value ∧ field.2.fits value = true := by
  induction fields with
  | nil => cases d <;> simp [fitAll]
  | cons field fields ih =>
    have hvalue : ∀ members,
        ((Members.get? members field.1).map field.2.fits).getD false = true ↔
          ∃ value, Members.get? members field.1 = some value ∧ field.2.fits value = true := by
      intro members
      cases Members.get? members field.1 <;> simp
    rw [fitAll, Bool.and_eq_true, ih, hvalue]
    constructor
    · rintro ⟨hfield, members, rfl, hrest⟩
      exact ⟨members, rfl, List.forall_mem_cons.2 ⟨hfield, hrest⟩⟩
    · rintro ⟨members, rfl, hall⟩
      obtain ⟨hfield, hrest⟩ := List.forall_mem_cons.1 hall
      exact ⟨hfield, members, rfl, hrest⟩

end

/-! ## The tree of a shape -/

mutual

/-- The slot of a shape that stands at a path. -/
def slot (path : List Text) : Shape → Slot
  | .leaf type => .leaf ((identityRule path type).coercedSource .standard)
  | .object fields => .branch (slots path fields)
  | .array fields => .branch [(Path.each, .branch (slots (path ++ [Path.each]) fields))]

def slots (path : List Text) : List (Text × Shape) → TargetTree
  | [] => []
  | (key, shape) :: rest => (key, shape.slot (path ++ [key])) :: slots path rest

end

theorem slots_eq (path : List Text) (fields : List (Text × Shape)) :
    slots path fields = fields.map fun field => (field.1, field.2.slot (path ++ [field.1])) := by
  induction fields with
  | nil => rfl
  | cons field fields ih => rw [slots, ih, List.map_cons]

theorem isPlain_slots {fields : List (Text × Shape)}
    (h : areKeys (fields.map (·.1)) = true) (path : List Text) :
    TargetTree.IsPlain (slots path fields) := by
  rw [areKeys_iff] at h
  have hkeys : TargetTree.keys (slots path fields) = fields.map (·.1) := by
    simp [slots_eq, TargetTree.keys]
  refine ⟨?_, hkeys ▸ h.2.1, hkeys ▸ h.2.2⟩
  intro hnil
  exact h.1 (by simp [← hkeys, hnil, TargetTree.keys])

/-- The inserts of leaves below a path. -/
def inserts (path : List Text) (leaves : List (List Text × Text)) : List (List Text × Text) :=
  leaves.map fun leaf =>
    (leaf.1, (identityRule (path ++ leaf.1) leaf.2).coercedSource .standard)

theorem inserts_map_cons (path : List Text) (key : Text) (leaves : List (List Text × Text)) :
    inserts path (leaves.map fun leaf => (key :: leaf.1, leaf.2)) =
      (inserts (path ++ [key]) leaves).map fun entry => (key :: entry.1, entry.2) := by
  simp [inserts, Function.comp_def]

theorem leavesOf_ne_nil {fields : List (Text × Shape)} (hne : fields ≠ [])
    (h : ∀ field ∈ fields, field.2.leaves ≠ []) : leavesOf fields ≠ [] := by
  obtain ⟨field, rest, rfl⟩ := List.exists_cons_of_ne_nil hne
  simp [leavesOf, h field (by simp)]

theorem ne_nil_of_mem_leavesOf {fields : List (Text × Shape)} {leaf : List Text × Text}
    (h : leaf ∈ leavesOf fields) : ∃ key ∈ fields.map (·.1), ∃ rest, leaf.1 = key :: rest := by
  rw [leavesOf_eq, List.mem_flatMap] at h
  obtain ⟨field, hfield, hleaf⟩ := h
  obtain ⟨inner, -, rfl⟩ := List.mem_map.1 hleaf
  exact ⟨field.1, List.mem_map_of_mem hfield, inner.1, rfl⟩

theorem isValid_object {position : Position} {fields : List (Text × Shape)} :
    (object fields).isValid position = true ↔
      ∃ inside, position.inside? = some inside ∧ areKeys (fields.map (·.1)) = true ∧
        ∀ field ∈ fields, field.2.isValid inside = true := by
  rw [isValid]
  cases position.inside? with
  | none => simp
  | some inside => simp [areValid_iff]

theorem isValid_array {position : Position} {fields : List (Text × Shape)} :
    (array fields).isValid position = true ↔
      areKeys (fields.map (·.1)) = true ∧ ∀ field ∈ fields, field.2.isValid .element = true := by
  rw [isValid, Bool.and_eq_true, areValid_iff]

theorem leaves_ne_nil {shape : Shape} {position : Position}
    (h : shape.isValid position = true) : shape.leaves ≠ [] := by
  induction shape using Shape.induction generalizing position with
  | leaf type => simp [leaves]
  | object fields ih =>
    obtain ⟨inside, -, hkeys, hvalid⟩ := isValid_object.1 h
    rw [leaves]
    exact leavesOf_ne_nil (by simpa using (areKeys_iff.1 hkeys).1)
      fun field hfield => ih field hfield (hvalid field hfield)
  | array fields ih =>
    obtain ⟨hkeys, hvalid⟩ := isValid_array.1 h
    have hne := leavesOf_ne_nil (by simpa using (areKeys_iff.1 hkeys).1)
      fun field hfield => ih field hfield (hvalid field hfield)
    simpa [leaves] using hne

/-- The inserts of the leaves of distinct fields build the slots of the fields. -/
theorem ofInserts_leavesOf {fields : List (Text × Shape)} (hnodup : (fields.map (·.1)).Nodup)
    (path : List Text)
    (h : ∀ field ∈ fields,
      TargetTree.ofInserts
        (inserts path (field.2.leaves.map fun leaf => (field.1 :: leaf.1, leaf.2))) =
      [(field.1, field.2.slot (path ++ [field.1]))]) :
    TargetTree.ofInserts (inserts path (leavesOf fields)) = slots path fields := by
  induction fields with
  | nil => rfl
  | cons field fields ih =>
    obtain ⟨hfield, hfields⟩ := List.forall_mem_cons.1 h
    rw [List.map_cons, List.nodup_cons] at hnodup
    have hfirst := hfield
    rw [leavesOf, slots, inserts, List.map_append, ← inserts, ← inserts,
      TargetTree.ofInserts_append_of_fresh, hfield, ih hnodup.2 hfields, List.singleton_append]
    intro entry hentry
    obtain ⟨leaf, hleaf, rfl⟩ := List.mem_map.1 hentry
    obtain ⟨key, hkey, rest, hpath⟩ := ne_nil_of_mem_leavesOf hleaf
    refine ⟨key, rest, hpath, ?_⟩
    rw [hfield]
    simp only [TargetTree.keys, List.map_cons, List.map_nil, List.mem_singleton]
    intro heq
    exact hnodup.1 (heq ▸ hkey)

/-- The inserts of the leaves of a shape under a key build its slot. -/
theorem ofInserts_leaves {shape : Shape} {position : Position}
    (h : shape.isValid position = true) (path : List Text) (key : Text) :
    TargetTree.ofInserts
        (inserts path (shape.leaves.map fun leaf => (key :: leaf.1, leaf.2))) =
      [(key, shape.slot (path ++ [key]))] := by
  have hkeys : ∀ (path : List Text) (fields : List (Text × Shape)),
      ∀ entry ∈ inserts path (leavesOf fields), entry.1 ≠ [] := by
    intro path fields entry hentry
    obtain ⟨leaf, hleaf, rfl⟩ := List.mem_map.1 hentry
    obtain ⟨key, -, rest, hpath⟩ := ne_nil_of_mem_leavesOf hleaf
    simp [hpath]
  induction shape using Shape.induction generalizing position path key with
  | leaf type => rfl
  | object fields ih =>
    obtain ⟨inside, -, hfields, hvalid⟩ := isValid_object.1 h
    have hne := leaves_ne_nil h
    rw [leaves] at hne
    rw [leaves, slot, inserts_map_cons, TargetTree.ofInserts_map_cons key (by simpa [inserts])
      (hkeys _ _), ofInserts_leavesOf (areKeys_iff.1 hfields).2.1]
    exact fun field hfield => ih field hfield (hvalid field hfield) _ _
  | array fields ih =>
    obtain ⟨hfields, hvalid⟩ := isValid_array.1 h
    have hne := leaves_ne_nil h
    simp only [leaves, ne_eq, List.map_eq_nil_iff] at hne
    have heach : ∀ entry ∈ (inserts (path ++ [key] ++ [Path.each]) (leavesOf fields)).map
        (fun entry => (Path.each :: entry.1, entry.2)), entry.1 ≠ [] := by
      intro entry hentry
      obtain ⟨inner, -, rfl⟩ := List.mem_map.1 hentry
      simp
    rw [leaves, slot, inserts_map_cons, inserts_map_cons,
      TargetTree.ofInserts_map_cons key (by simpa [inserts]) heach,
      TargetTree.ofInserts_map_cons Path.each (by simpa [inserts]) (hkeys _ _),
      ofInserts_leavesOf (areKeys_iff.1 hfields).2.1]
    exact fun field hfield => ih field hfield (hvalid field hfield) _ _

/-! ## The paths of the leaves -/

/-- Whether a path is made of plain keys and `#`. -/
def isPath (path : List Text) : Bool :=
  path.all fun key => key.isPlain || key = Path.each

theorem isPath_append {path rest : List Text} :
    isPath (path ++ rest) = true ↔ isPath path = true ∧ isPath rest = true := by
  simp only [isPath, List.all_append, Bool.and_eq_true]

theorem isPath_concat {path : List Text} {key : Text} (hpath : isPath path = true)
    (hkey : key.isPlain = true) : isPath (path ++ [key]) = true :=
  isPath_append.2 ⟨hpath, by simp [isPath, hkey]⟩

theorem isPath_leaves {shape : Shape} {position : Position}
    (h : shape.isValid position = true) : ∀ leaf ∈ shape.leaves, isPath leaf.1 = true := by
  have hfields : ∀ {fields : List (Text × Shape)}, areKeys (fields.map (·.1)) = true →
      (∀ field ∈ fields, ∀ leaf ∈ field.2.leaves, isPath leaf.1 = true) →
      ∀ leaf ∈ leavesOf fields, isPath leaf.1 = true := by
    intro fields hkeys hinner leaf hleaf
    rw [leavesOf_eq, List.mem_flatMap] at hleaf
    obtain ⟨field, hfield, hleaf⟩ := hleaf
    obtain ⟨inner, hmem, rfl⟩ := List.mem_map.1 hleaf
    have hplain := (areKeys_iff.1 hkeys).2.2 field.1 (List.mem_map_of_mem hfield)
    have hrest := hinner field hfield inner hmem
    rw [isPath] at hrest ⊢
    rw [List.all_cons, hrest, hplain, Bool.true_or, Bool.and_true]
  induction shape using Shape.induction generalizing position with
  | leaf type => simp [leaves, isPath]
  | object fields ih =>
    obtain ⟨inside, -, hkeys, hvalid⟩ := isValid_object.1 h
    rw [leaves]
    exact hfields hkeys fun field hfield => ih field hfield (hvalid field hfield)
  | array fields ih =>
    obtain ⟨hkeys, hvalid⟩ := isValid_array.1 h
    intro leaf hleaf
    rw [leaves, List.mem_map] at hleaf
    obtain ⟨inner, hinner, rfl⟩ := hleaf
    have hrest := hfields hkeys (fun field hfield => ih field hfield (hvalid field hfield))
      inner hinner
    simpa [isPath] using hrest

theorem notMem_of_isPath {path : List Text} (h : isPath path = true) {c : Char}
    (hc : Text.isPlainChar c = false) (heach : c ≠ '#') : ∀ key ∈ path, c ∉ key := by
  intro key hkey
  simp only [isPath, List.all_eq_true, Bool.or_eq_true, decide_eq_true_eq] at h
  rcases h key hkey with hplain | rfl
  · exact Text.notMem_of_isPlain hplain hc
  · simpa [Path.each] using heach

theorem segments_of_isPath {path : List Text} (hne : path ≠ []) (h : isPath path = true) :
    Path.segments (Path.ofSegments path) = path :=
  Path.segments_ofSegments hne (notMem_of_isPath h (by decide) (by decide))

theorem ofSegments_ne_nil {path : List Text} (hne : path ≠ []) (h : isPath path = true) :
    Path.ofSegments path ≠ [] := by
  intro hnil
  have hsegments := segments_of_isPath hne h
  rw [hnil] at hsegments
  rw [← hsegments] at h
  exact absurd h (by decide)

theorem steps?_ofSegments {path : List Text} (hne : path ≠ []) (h : isPath path = true) :
    Path.steps? (Path.ofSegments path) = some (path.map Segment.ofKey) := by
  rw [Path.steps?, segments_of_isPath hne h]
  apply Projection.mapM_ofText?
  intro key hkey
  simp only [isPath, List.all_eq_true, Bool.or_eq_true, decide_eq_true_eq] at h
  rcases h key hkey with hplain | rfl
  · rw [Projection.ofText?_of_isPlain hplain, Segment.ofKey,
      if_neg (Path.ne_each_of_isPlain hplain)]
  · rfl

/-- The steps to a leaf, and its coercion. -/
theorem steps?_source {path : List Text} (hne : path ≠ []) (h : isPath path = true)
    (type : Text) :
    Path.steps? ((identityRule path type).coercedSource .standard) =
      some (path.map Segment.ofKey ++ (Modifier.ofType? type).toList.map .modifier) := by
  rw [Rule.steps?_coercedSource, Rule.steps?]
  simp [identityRule, ofSegments_ne_nil hne h, steps?_ofSegments hne h]

/-- The identity rules of an object make the tree of its fields. -/
theorem fields_rules {fields : List (Text × Shape)} {position : Position}
    (h : (object fields).isValid position = true) :
    RuleSet.fields .standard (object fields).rules = slots [] fields := by
  obtain ⟨inside, -, hkeys, hvalid⟩ := isValid_object.1 h
  have hplacements : RuleSet.placements .standard (object fields).rules =
      inserts [] (leavesOf fields) := by
    rw [RuleSet.placements, rules, List.map_map, leaves]
    apply List.map_congr_left
    intro leaf hleaf
    obtain ⟨key, -, rest, hpath⟩ := ne_nil_of_mem_leavesOf hleaf
    have hsegments := segments_of_isPath (by simp [hpath]) (isPath_leaves h leaf (by simpa [leaves]))
    simp [identityRule, hsegments]
  rw [RuleSet.fields, hplacements]
  exact ofInserts_leavesOf (areKeys_iff.1 hkeys).2.1 []
    fun field hfield => ofInserts_leaves (hvalid field hfield) [] field.1

/-! ## Regularity -/

theorem every_slots {fields : List (Text × Shape)} {path : List Text}
    (hkeys : areKeys (fields.map (·.1)) = true) (hpath : isPath path = true)
    (h : ∀ field ∈ fields, ∀ path, path ≠ [] → isPath path = true →
      (field.2.slot path).Every TargetTree.IsRegular Path.IsReadable) :
    (Slot.branch (slots path fields)).Every TargetTree.IsRegular Path.IsReadable := by
  rw [Slot.Every, TargetTree.every_iff]
  refine ⟨.inl (isPlain_slots hkeys path), ?_⟩
  intro entry hentry
  rw [slots_eq, List.mem_map] at hentry
  obtain ⟨field, hfield, rfl⟩ := hentry
  have hplain := (areKeys_iff.1 hkeys).2.2 field.1 (List.mem_map_of_mem hfield)
  exact h field hfield (path ++ [field.1]) (by simp) (isPath_concat hpath hplain)

/-- Every level of the tree of a shape is regular, and all its sources are
readable. -/
theorem every_slot {shape : Shape} {position : Position} (h : shape.isValid position = true)
    {path : List Text} (hne : path ≠ []) (hpath : isPath path = true) :
    (shape.slot path).Every TargetTree.IsRegular Path.IsReadable := by
  induction shape using Shape.induction generalizing position path with
  | leaf type =>
    rw [slot, Slot.Every, Path.IsReadable, steps?_source hne hpath]
    rfl
  | object fields ih =>
    obtain ⟨inside, -, hkeys, hvalid⟩ := isValid_object.1 h
    rw [slot]
    exact every_slots hkeys hpath fun field hfield _ hne hpath =>
      ih field hfield (hvalid field hfield) hne hpath
  | array fields ih =>
    obtain ⟨hkeys, hvalid⟩ := isValid_array.1 h
    have hpathEach : isPath (path ++ [Path.each]) = true := by
      rw [isPath_append]
      exact ⟨hpath, by decide⟩
    rw [slot, Slot.Every, TargetTree.every_iff]
    refine ⟨.inr ⟨_, rfl⟩, ?_⟩
    intro entry hentry
    rw [List.mem_singleton] at hentry
    subst hentry
    exact every_slots hkeys hpathEach fun field hfield _ hne hpath =>
      ih field hfield (hvalid field hfield) hne hpath

theorem arrays_slots_lt_depth {fields : List (Text × Shape)} (path : List Text)
    (hkeys : areKeys (fields.map (·.1)) = true)
    (h : ∀ field ∈ fields, ∀ path inArray depth, (field.2.slot path).arrays ≤
      Expression.depth ((field.2.slot path).stages inArray depth field.1))
    (inArray : Bool) (depth : Nat) (key : Text) :
    TargetTree.arrays (slots path fields) + 1 ≤
      Expression.depth ((Slot.branch (slots path fields)).stages inArray depth key) := by
  rw [Slot.stages_of_isPlain (isPlain_slots hkeys path), Expression.depth_append,
    Expression.depth, Stage.depth]
  have hplain := (areKeys_iff.1 hkeys).2.2
  clear hkeys
  have hmembers : TargetTree.arrays (slots path fields) ≤
      Stage.depthOfMembers ((slots path fields).map fun entry =>
        (entry.1, entry.2.stages (key = Path.each) depth entry.1)) := by
    induction fields with
    | nil => simp [slots, TargetTree.arrays]
    | cons field fields ih =>
      have heach := Path.ne_each_of_isPlain (hplain field.1 (by simp))
      have hfirst := h field (by simp) (path ++ [field.1]) (key = Path.each) depth
      have hrest := ih (fun other hother => h other (by simp [hother]))
        (fun k hk => hplain k (by simp only [List.map_cons, List.mem_cons]; exact .inr hk))
      rw [slots, TargetTree.arrays, List.map_cons, Stage.depthOfMembers]
      simp only [heach, decide_false, Bool.false_and, Bool.false_eq_true, if_false, Nat.add_zero]
      omega
  omega

/-- Each array of a shape adds to the nesting of the expression. -/
theorem arrays_le_depth {shape : Shape} {position : Position}
    (h : shape.isValid position = true) (path : List Text) (inArray : Bool) (depth : Nat)
    {key : Text} (hkey : key ≠ Path.each) :
    (shape.slot path).arrays ≤
      Expression.depth ((shape.slot path).stages inArray depth key) := by
  induction shape using Shape.induction generalizing position path inArray depth key with
  | leaf type => simp [slot, Slot.arrays]
  | object fields ih =>
    obtain ⟨inside, -, hkeys, hvalid⟩ := isValid_object.1 h
    have hlt := arrays_slots_lt_depth path hkeys
      (fun field hfield path inArray depth => ih field hfield (hvalid field hfield) path inArray
        depth (Path.ne_each_of_isPlain
          ((areKeys_iff.1 hkeys).2.2 field.1 (List.mem_map_of_mem hfield))))
      inArray depth key
    rw [slot, Slot.arrays]
    omega
  | array fields ih =>
    obtain ⟨hkeys, hvalid⟩ := isValid_array.1 h
    have hlt := arrays_slots_lt_depth (path ++ [Path.each]) hkeys
      (fun field hfield path inArray depth => ih field hfield (hvalid field hfield) path inArray
        depth (Path.ne_each_of_isPlain
          ((areKeys_iff.1 hkeys).2.2 field.1 (List.mem_map_of_mem hfield))))
      false (depth + 1) Path.each
    have harrays : (slot path (array fields)).arrays =
        TargetTree.arrays (slots (path ++ [Path.each]) fields) + 1 := by
      simp [slot, Slot.arrays, TargetTree.arrays, Slot.isBranch]
    rw [harrays, slot, Slot.stages_each]
    simpa [hkey, Slot.opened, Slot.isBranch] using hlt

/-! ## Evaluation -/

theorem evalPath?_coercion (type : Text) (d : Document) :
    evalPath? ((Modifier.ofType? type).toList.map .modifier) d = some (d.coerce type) := by
  rw [Document.coerce]
  cases htype : Modifier.ofType? type with
  | none => simp [evalPath?]
  | some modifier =>
    have hact : ∀ entry ∈ Modifier.byType, (entry.2.act? d).isSome = true := by
      simp [Modifier.byType, Modifier.act?]
    obtain ⟨value, hvalue⟩ := Option.isSome_iff_exists.1 (hact _ (mem_of_lookup htype))
    simp only at hvalue
    simp [evalPath?, hvalue]

theorem pass?_grouping {depth : Nat} (h : 1 ≤ depth) :
    Expression.pass? [TargetTree.groupingStage depth] = Document.groupAxes depth := by
  obtain ⟨n, rfl⟩ : ∃ n, depth = n + 1 := ⟨depth - 1, by omega⟩
  funext d
  simp only [TargetTree.groupingStage, Expression.pass?, Stage.eval?, evalPath?, Modifier.act?,
    Document.groupAxes, Nat.add_sub_cancel]
  cases d.groupPlus? n <;> rfl

/-- A fitting object has the members of its fields. -/
theorem along_field {fields : List (Text × Shape)} {path : List Text} {d : Document}
    (hkeys : areKeys (fields.map (·.1)) = true)
    (h : Document.Along (fun x => fitAll fields x = true) path d) {field : Text × Shape}
    (hfield : field ∈ fields) :
    Document.Along (fun x => field.2.fits x = true) (path ++ [field.1]) d := by
  rw [Document.along_append]
  apply h.mono
  intro x hx
  obtain ⟨members, rfl, hall⟩ := fitAll_iff.1 hx
  obtain ⟨value, hvalue, hfits⟩ := hall field hfield
  have heach := Path.ne_each_of_isPlain
    ((areKeys_iff.1 hkeys).2.2 field.1 (List.mem_map_of_mem hfield))
  rw [Document.Along, if_neg heach]
  exact ⟨members, value, rfl, hvalue, hfits⟩

/-- The columns of the fields of an object are grouped into the column of the
object. -/
theorem eval?_fields {fields : List (Text × Shape)} {path : List Text} {d : Document}
    {inArray : Bool} {depth : Nat} (hkeys : areKeys (fields.map (·.1)) = true)
    (hfits : Document.Along (fun x => fitAll fields x = true) path d)
    (h : ∀ field ∈ fields,
      Expression.eval? ((field.2.slot (path ++ [field.1])).stages inArray depth field.1) d =
        some (Document.mapAlong field.2.restrict (path ++ [field.1]) d)) :
    (Stage.eval? (.object ((slots path fields).map fun entry =>
        (entry.1, entry.2.stages inArray depth entry.1))) d).bind
      (Document.groupAxes (Document.axes path)) =
    some (Document.mapAlong (fun x => .object (restrictAll fields x)) path d) := by
  obtain ⟨hne, hnodup, hplain⟩ := areKeys_iff.1 hkeys
  have hmembers : Stage.evalMembers ((slots path fields).map fun entry =>
        (entry.1, entry.2.stages inArray depth entry.1)) d =
      fields.map fun field => (field.1,
        Document.mapAlong (fun x => field.2.restrict (x.member field.1)) path d) := by
    clear hkeys hfits hne hnodup
    induction fields with
    | nil => rfl
    | cons field fields ih =>
      obtain ⟨hfirst, hothers⟩ := List.forall_mem_cons.1 h
      rw [List.map_cons, List.forall_mem_cons] at hplain
      rw [Document.mapAlong_concat _ _ (Path.ne_each_of_isPlain hplain.1)] at hfirst
      rw [slots, List.map_cons, Stage.evalMembers, hfirst, ih hothers hplain.2, List.map_cons]
  rw [Stage.eval?, hmembers, Members.ofList_of_nodup (by simpa [Function.comp_def] using hnodup),
    Option.bind_some]
  have hcells : (fields.map fun field =>
      (field.1, fun x : Document => field.2.restrict (x.member field.1))) ≠ [] := by
    simpa using hne
  have hgroup := Document.groupAxes_mapAlong hcells (hfits.mono fun _ _ => trivial)
  simpa [restrictAll_eq, Function.comp_def] using hgroup

theorem axes_concat {path : List Text} {key : Text} (h : key ≠ Path.each) :
    Document.axes (path ++ [key]) = Document.axes path := by
  simp [Document.axes, h]

theorem axes_concat_each (path : List Text) :
    Document.axes (path ++ [Path.each]) = Document.axes path + 1 := by
  simp [Document.axes]

theorem eval?_leaf (type : Text) {path : List Text} {key : Text} (hpath : isPath path = true)
    (hkey : key.isPlain = true) {d : Document}
    (h : Document.Along (fun _ => True) (path ++ [key]) d) (inArray : Bool) (depth : Nat) :
    Expression.eval? (((leaf type).slot (path ++ [key])).stages inArray depth key) d =
      some (Document.mapAlong (leaf type).restrict (path ++ [key]) d) := by
  have heach := Path.ne_each_of_isPlain hkey
  have hsteps := steps?_source (show path ++ [key] ≠ [] by simp)
    (isPath_concat hpath hkey) type
  rw [List.map_append, List.append_assoc] at hsteps
  have hvalue : evalPath? (path.map Segment.ofKey ++ ([key].map Segment.ofKey ++
      (Modifier.ofType? type).toList.map .modifier)) d =
      some (Document.mapAlong (fun x => (x.member key).coerce type) path d) := by
    rw [Document.along_append] at h
    refine evalPath?_along (by simp) ?_ h
    intro x hx
    rw [Document.Along, if_neg heach] at hx
    obtain ⟨members, value, rfl, hmember, -⟩ := hx
    simp only [List.map_cons, List.map_nil, List.singleton_append, Segment.ofKey, if_neg heach,
      evalPath?, Document.child?, hmember, Option.bind_some, evalPath?_coercion]
    simp [Document.member, Document.membersOrNone, hmember]
  rw [slot, Slot.stages, hsteps, Document.mapAlong_concat _ _ heach]
  simpa [Expression.eval?, Expression.pass?, Stage.eval?, restrict] using hvalue

/-- The expression of an object gives its column if those of the fields give theirs.
The rows are grouped exactly if there is an array above. -/
theorem eval?_object {fields : List (Text × Shape)} {path : List Text} {key : Text}
    {d : Document} {inArray : Bool} (hkeys : areKeys (fields.map (·.1)) = true)
    (heach : key ≠ Path.each) (harray : inArray = decide (1 ≤ Document.axes path))
    (hfits : Document.Along (fun x => fitAll fields x = true) (path ++ [key]) d)
    (h : ∀ field ∈ fields, Expression.eval?
        ((field.2.slot (path ++ [key] ++ [field.1])).stages false (Document.axes path) field.1) d =
      some (Document.mapAlong field.2.restrict (path ++ [key] ++ [field.1]) d)) :
    Expression.eval?
        (((object fields).slot (path ++ [key])).stages inArray (Document.axes path) key) d =
      some (Document.mapAlong (object fields).restrict (path ++ [key]) d) := by
  have hgroup : Expression.pass?
      (if inArray = true then [TargetTree.groupingStage (Document.axes path)] else []) =
      Document.groupAxes (Document.axes path) := by
    by_cases haxes : 1 ≤ Document.axes path
    · rw [harray, if_pos (decide_eq_true haxes), pass?_grouping haxes]
    · have hzero : Document.axes path = 0 := by omega
      funext x
      simp [harray, hzero, Expression.pass?, Document.groupAxes]
  have heval := eval?_fields hkeys hfits h
  rw [axes_concat heach, ← decide_eq_false heach] at heval
  rw [slot, Slot.stages_of_isPlain (isPlain_slots hkeys _), if_neg heach, List.append_nil,
    Expression.eval?, hgroup]
  exact heval

/-- The items of a fitting array fit. -/
theorem along_items {fields : List (Text × Shape)} {path : List Text} {d : Document}
    (h : Document.Along (fun x => (array fields).fits x = true) path d) :
    Document.Along (fun x => fitAll fields x = true) (path ++ [Path.each]) d := by
  rw [Document.along_append]
  apply h.mono
  intro x hx
  rw [Document.Along, if_pos rfl]
  cases x with
  | array items => exact ⟨items, rfl, by simpa [fits, Document.Along] using hx⟩
  | _ => simp [fits] at hx

/-- The expression of an array gives its column if those of the fields give theirs,
one axis further down. -/
theorem eval?_array {fields : List (Text × Shape)} {path : List Text} {key : Text}
    {d : Document} {inArray : Bool} (hkeys : areKeys (fields.map (·.1)) = true)
    (heach : key ≠ Path.each)
    (hfits : Document.Along (fun x => (array fields).fits x = true) (path ++ [key]) d)
    (h : ∀ field ∈ fields, Expression.eval?
        ((field.2.slot (path ++ [key] ++ [Path.each] ++ [field.1])).stages true
          (Document.axes path + 1) field.1) d =
      some (Document.mapAlong field.2.restrict (path ++ [key] ++ [Path.each] ++ [field.1]) d)) :
    Expression.eval?
        (((array fields).slot (path ++ [key])).stages inArray (Document.axes path) key) d =
      some (Document.mapAlong (array fields).restrict (path ++ [key]) d) := by
  have hrestrict : Document.mapAlong (fun x => .object (restrictAll fields x)) [Path.each] =
      (array fields).restrict := by
    funext x
    simp [Document.mapAlong, restrict]
  have heval := eval?_fields hkeys (along_items hfits) h
  rw [axes_concat_each, axes_concat heach, Document.mapAlong_append, hrestrict,
    ← decide_eq_true (rfl : Path.each = Path.each)] at heval
  rw [slot, Slot.stages_each, if_neg heach, List.append_nil, Slot.opened, Slot.isBranch,
    if_pos rfl, Slot.stages_of_isPlain (isPlain_slots hkeys _), if_pos rfl,
    decide_eq_false heach, if_neg (by decide), List.singleton_append, Expression.eval?,
    pass?_grouping (by omega)]
  exact heval

/-- The expression of a shape gives its column, restricted. -/
theorem eval?_slot {shape : Shape} {position : Position} (h : shape.isValid position = true)
    {path : List Text} {key : Text} (hpath : isPath path = true) (hkey : key.isPlain = true)
    {d : Document} (hfits : Document.Along (fun x => shape.fits x = true) (path ++ [key]) d)
    (hfree : position = .free → Document.axes path = 0)
    (helement : position = .element → 1 ≤ Document.axes path) :
    Expression.eval?
        ((shape.slot (path ++ [key])).stages (position = .element) (Document.axes path) key) d =
      some (Document.mapAlong shape.restrict (path ++ [key]) d) := by
  have heach := Path.ne_each_of_isPlain hkey
  induction shape using Shape.induction generalizing position path key with
  | leaf type => exact eval?_leaf type hpath hkey (hfits.mono fun _ _ => trivial) _ _
  | object fields ih =>
    obtain ⟨inside, hinside, hkeys, hvalid⟩ := isValid_object.1 h
    have hfields : Document.Along (fun x => fitAll fields x = true) (path ++ [key]) d :=
      hfits.mono fun x hx => by simpa [fits] using hx
    have harray : decide (position = .element) = decide (1 ≤ Document.axes path) := by
      cases position with
      | free => simp [hfree rfl]
      | element => simp [helement rfl]
      | part => simp [Position.inside?] at hinside
    refine eval?_object hkeys heach harray hfields ?_
    intro field hfield
    have hplain := (areKeys_iff.1 hkeys).2.2 field.1 (List.mem_map_of_mem hfield)
    have hnot : inside ≠ .element := Position.inside?_ne_element hinside
    have hfreeInside : inside = .free → Document.axes (path ++ [key]) = 0 := by
      intro hinsideFree
      rw [axes_concat heach]
      exact hfree (Position.eq_free_of_inside? (hinsideFree ▸ hinside))
    have hvalue := ih field hfield (hvalid field hfield) (isPath_concat hpath hkey) hplain
      (along_field hkeys hfields hfield) hfreeInside (fun he => absurd he hnot)
      (Path.ne_each_of_isPlain hplain)
    rwa [axes_concat heach, decide_eq_false hnot] at hvalue
  | array fields ih =>
    obtain ⟨hkeys, hvalid⟩ := isValid_array.1 h
    have hpathEach : isPath (path ++ [key] ++ [Path.each]) = true :=
      isPath_append.2 ⟨isPath_concat hpath hkey, by decide⟩
    have haxes : Document.axes (path ++ [key] ++ [Path.each]) = Document.axes path + 1 := by
      rw [axes_concat_each, axes_concat heach]
    refine eval?_array hkeys heach hfits ?_
    intro field hfield
    have hplain := (areKeys_iff.1 hkeys).2.2 field.1 (List.mem_map_of_mem hfield)
    have hvalue := ih field hfield (hvalid field hfield) hpathEach hplain
      (along_field hkeys (along_items hfits) hfield) (fun hfree => absurd hfree (by decide))
      (fun _ => by omega) (Path.ne_each_of_isPlain hplain)
    rwa [haxes, decide_eq_true rfl] at hvalue

/-! ## The round trip -/

theorem targetKeys_leaf {fields : List (Text × Shape)} {position : Position}
    (h : (object fields).isValid position = true) {leaf : List Text × Text}
    (hleaf : leaf ∈ leavesOf fields) :
    Rule.targetKeys (Path.ofSegments leaf.1) =
      [] :: Path.segments (Path.ofSegments leaf.1) := by
  obtain ⟨inside, -, hkeys, -⟩ := isValid_object.1 h
  obtain ⟨key, hkey, rest, hpath⟩ := ne_nil_of_mem_leavesOf hleaf
  have hisPath := isPath_leaves h leaf (by simpa [leaves] using hleaf)
  have hsegments := segments_of_isPath (by simp [hpath]) hisPath
  apply Rule.targetKeys_of_segments (hsegments.trans hpath) ((areKeys_iff.1 hkeys).2.2 key hkey)
  rw [hsegments]
  exact notMem_of_isPath hisPath (by decide) (by decide)

section

variable {fields : List (Text × Shape)} (h : (object fields).isValid .free = true)

include h

theorem isValid_top : areKeys (fields.map (·.1)) = true ∧
    ∀ field ∈ fields, field.2.isValid .free = true := by
  obtain ⟨inside, hinside, hkeys, hinner⟩ := isValid_object.1 h
  obtain rfl : inside = .free := by simpa [Position.inside?] using hinside.symm
  exact ⟨hkeys, hinner⟩

/-- The identity rules of a shape compile to the text of its tree. -/
theorem compile_rules : (object fields).rules.compile .standard =
    (Slot.branch (slots [] fields)).valueText false 0 [] := by
  rw [← fields_rules h]
  apply RuleSet.compile_eq
  · simpa [rules] using leaves_ne_nil h
  all_goals
    intro rule hrule
    obtain ⟨leaf, hleaf, rfl⟩ := List.mem_map.1 hrule
    have hmem : leaf ∈ leavesOf fields := by simpa [leaves] using hleaf
  · exact targetKeys_leaf h hmem
  · obtain ⟨key, -, rest, hpath⟩ := ne_nil_of_mem_leavesOf hmem
    exact ofSegments_ne_nil (by simp [hpath]) (isPath_leaves h leaf hleaf)

theorem every_tree :
    (Slot.branch (slots [] fields)).Every TargetTree.IsRegular Path.IsReadable := by
  obtain ⟨hkeys, hinner⟩ := isValid_top h
  exact every_slots hkeys (by decide) fun field hfield _ hne hpath =>
    every_slot (hinner field hfield) hne hpath

theorem depth_tree :
    Expression.depth ((Slot.branch (slots [] fields)).stages false 0 []) =
      ((object fields).rules.compile .standard).nesting := by
  have hnests := Slot.nests (every_tree h) false 0 [] []
  rw [List.append_nil, ← compile_rules h, Text.nesting, Nat.max_zero] at hnests
  exact hnests.symm

/-- The text reads as the expression of the tree.  The nesting bounds the number of
arrays, so the arguments of the groupings are words. -/
theorem renders_rules (hword : ((object fields).rules.compile .standard).nesting < 2 ^ 64) :
    Projection.Renders ((object fields).rules.compile .standard)
      ((Slot.branch (slots [] fields)).stages false 0 []) := by
  obtain ⟨hkeys, hinner⟩ := isValid_top h
  have harrays := arrays_slots_lt_depth [] hkeys
    (fun field hfield path inArray depth => arrays_le_depth (hinner field hfield) path inArray
      depth (Path.ne_each_of_isPlain
        ((areKeys_iff.1 hkeys).2.2 field.1 (List.mem_map_of_mem hfield))))
    false 0 []
  rw [depth_tree h] at harrays
  have hbound : 0 + (Slot.branch (slots [] fields)).arrays ≤ 2 ^ 64 := by
    rw [Slot.arrays]
    omega
  rw [compile_rules h]
  exact Slot.renders (every_tree h) hbound false []

theorem eval?_tree {document : Document} (hfits : (object fields).fits document = true) :
    Expression.eval? ((Slot.branch (slots [] fields)).stages false 0 []) document =
      some ((object fields).restrict document) := by
  obtain ⟨hkeys, hinner⟩ := isValid_top h
  have hroot : Document.Along (fun x => fitAll fields x = true) [] document := by
    simpa [Document.Along, fits] using hfits
  have hmembers : ∀ field ∈ fields, Expression.eval?
      ((field.2.slot ([] ++ [field.1])).stages false 0 field.1) document =
      some (Document.mapAlong field.2.restrict ([] ++ [field.1]) document) := by
    intro field hfield
    exact eval?_slot (hinner field hfield) (by decide)
      ((areKeys_iff.1 hkeys).2.2 field.1 (List.mem_map_of_mem hfield))
      (along_field hkeys hroot hfield) (fun _ => rfl) (fun he => absurd he (by decide))
  have heval := eval?_fields hkeys hroot hmembers
  have hsome : Document.groupAxes (Document.axes []) = some := rfl
  rw [hsome] at heval
  rw [Slot.stages_of_isPlain (isPlain_slots hkeys [])]
  simpa [Expression.eval?, Expression.pass?, Document.mapAlong, restrict, Path.each] using heval

end

/-- Identity rules over a shape give back every document that fits the shape,
restricted to it and with its leaves coerced. -/
theorem get_compile_rules {fields : List (Text × Shape)}
    (hvalid : (object fields).isValid .free = true) {document : Document}
    (hfits : (object fields).fits document = true) {maxDepth : Nat} (hword : maxDepth < 2 ^ 64)
    (hdepth : ((object fields).rules.compile .standard).nesting ≤ maxDepth) :
    Projection.get maxDepth document ((object fields).rules.compile .standard) =
      .ok (some ((object fields).restrict document)) := by
  have hrenders := renders_rules hvalid (by omega)
  have hwithin := depth_tree hvalid
  rw [hrenders.get_eq, Projection.evaluate, if_neg (by omega), eval?_tree hvalid hfits]

/-- Orders with their lines: an array in a part of an element of an array. -/
def orders : List (Text × Shape) :=
  [("id".toList, .leaf []),
   ("orders".toList, .array
     [("total".toList, .leaf "int".toList),
      ("body".toList, .object [("lines".toList, .array [("sku".toList, .leaf [])])])])]

/-- A document with one empty array of lines, and with members that the shape does not
list. -/
def orderBook : Document :=
  .object
    [("id".toList, .null), ("extra".toList, .bool true),
     ("orders".toList, .array
       [.object [("body".toList, .object [("lines".toList, .array [])]),
          ("total".toList, .string "12".toList)],
        .object [("total".toList, .number (.integer 3)),
          ("body".toList, .object [("lines".toList, .array
            [.object [("sku".toList, .string "a".toList)],
             .object [("sku".toList, .array []), ("extra".toList, .null)]])])]])]

theorem get_compile_orders :
    (object orders).isValid .free = true ∧ (object orders).fits orderBook = true ∧
    ((object orders).rules.compile .standard).nesting ≤ 64 ∧
    Projection.get 64 orderBook ((object orders).rules.compile .standard) =
      .ok (some ((object orders).restrict orderBook)) :=
  have hvalid : (object orders).isValid .free = true := by decide +kernel
  have hfits : (object orders).fits orderBook = true := by decide +kernel
  have hdepth : ((object orders).rules.compile .standard).nesting ≤ 64 := by decide +kernel
  ⟨hvalid, hfits, hdepth, get_compile_rules hvalid hfits (by decide) hdepth⟩

end Shape

end Reshape
