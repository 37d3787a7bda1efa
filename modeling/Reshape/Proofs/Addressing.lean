import Reshape.Proofs.CoercionSuffix

/-!
# Members by their names

A backslash takes the character behind it as it is.  So a key with a backslash before each
of its characters should name the member with that key, whatever the characters are.

It does, with one exception.  That a segment is a modifier is seen from its first
character, with the backslash, but that it is `#` is seen from the whole key, without.  So
`\@this` names a member, and `\#` stands for the items of an array like `#` itself.

* `isReadFrom_escaped`: what the reader makes of an escaped key.
* `get_escapedPath`: the value at a path of escaped keys.
* `get_escaped`: the value of one member, and the keys for which it is found.
-/

namespace Reshape

/-- A key with a backslash before every character. -/
def Text.escaped (key : Text) : Text :=
  key.flatMap fun c => ['\\', c]

/-- A path through keys, with a backslash before every character of each. -/
def Path.escaped (keys : List Text) : Path :=
  ofSegments (keys.map Text.escaped)

theorem Text.escaped_cons (c : Char) (key : Text) :
    escaped (c :: key) = '\\' :: c :: escaped key := rfl

namespace Projection

/-- An escaped key is read as the key, but `#` keeps its meaning. -/
theorem isReadFrom_escaped {key : Text} (hne : key ≠ []) :
    (Segment.ofKey key).IsReadFrom key.escaped := by
  intro rest hrest
  have hscan : scanKey (key.escaped ++ rest) = (key, rest) :=
    scanKey_escaped (.all _ key) fun c hc => (hrest c hc).1
  obtain ⟨c, tail, rfl⟩ := List.exists_cons_of_ne_nil hne
  rw [Text.escaped_cons, List.cons_append] at hscan ⊢
  unfold segment
  split
  · -- the first character is a backslash, so the segment is no modifier
    rename_i hat
    exact absurd hat (by simp)
  · rw [hscan]
    dsimp only
    rw [if_neg (by simp), Segment.ofKey, Path.each]
    split <;> rfl

variable {keys : List Text}

/-- A path of escaped keys starts with a backslash. -/
theorem exists_escapedPath_eq (hne : keys ≠ []) (hkeys : ∀ key ∈ keys, key ≠ []) :
    ∃ tail, Path.escaped keys = '\\' :: tail := by
  obtain ⟨key, others, rfl⟩ := List.exists_cons_of_ne_nil hne
  obtain ⟨c, rest, rfl⟩ := List.exists_cons_of_ne_nil (hkeys key (by simp))
  rw [Path.escaped, Path.ofSegments, List.map_cons, Text.join_cons_eq_flatMap, Text.escaped_cons]
  exact ⟨_, rfl⟩

/-- The expression that a path of escaped keys stands for. -/
theorem parse_escapedPath (hne : keys ≠ []) (hkeys : ∀ key ∈ keys, key ≠ []) :
    parse (Path.escaped keys) = .ok [.path (keys.map Segment.ofKey)] := by
  have hall : List.Forall₂ Segment.IsReadFrom (keys.map Segment.ofKey)
      (keys.map Text.escaped) := by
    rw [List.forall₂_map_left_iff, List.forall₂_map_right_iff, List.forall₂_same]
    exact fun key hkey => isReadFrom_escaped (hkeys key hkey)
  have hpath : ReadsPath (Path.escaped keys) (keys.map Segment.ofKey) [] := by
    have hend : EndsStage [] := by simp [EndsStage]
    have hjoin := readsPath_join hall (by simpa using hne) hend
    rwa [List.append_nil] at hjoin
  obtain ⟨tail, htail⟩ := exists_escapedPath_eq hne hkeys
  rw [htail] at hpath ⊢
  have hstart : Text.skipBlanks ('\\' :: tail) = '\\' :: tail := Text.skipBlanks_cons (by decide)
  exact parse_eq_ok_iff.2
    ⟨[], .expression (.path hstart (by decide) hpath) (@Reads.done [] (by simp)), rfl⟩

/-- The value at a path of escaped keys is found key by key. -/
theorem get_escapedPath (hne : keys ≠ []) (hkeys : ∀ key ∈ keys, key ≠ []) (maxDepth : Nat)
    (d : Document) :
    get maxDepth d (Path.escaped keys) = .ok (evalPath? (keys.map Segment.ofKey) d) := by
  rw [get_of_parse (parse_escapedPath hne hkeys), evaluate_of_depth_eq_zero rfl, eval?_path]

/-- The step of a single key in an object. -/
theorem evalPath?_ofKey (key : Text) (members : Members) :
    evalPath? [Segment.ofKey key] (.object members) =
      if key = Path.each then none else Members.get? members key := by
  unfold Segment.ofKey
  split
  · rfl
  · exact Option.bind_fun_some (Members.get? members key)

/-- An escaped key gives the value of the member with that key, or no value if there is no
such member, unless the key is `#`: then there is no value, whatever the members are.  So `#`
is the only key for which a member is missed. -/
theorem get_escaped {key : Text} (hne : key ≠ []) :
    (∀ maxDepth members, get maxDepth (.object members) key.escaped =
        .ok (if key = Path.each then none else Members.get? members key)) ∧
      ((∀ maxDepth members, get maxDepth (.object members) key.escaped =
          .ok (Members.get? members key)) ↔ key ≠ Path.each) := by
  have hvalue : ∀ maxDepth members, get maxDepth (.object members) key.escaped =
      .ok (if key = Path.each then none else Members.get? members key) := by
    intro maxDepth members
    have hpath := get_escapedPath (List.cons_ne_nil key []) (by simpa using hne) maxDepth
      (.object members)
    rwa [List.map_singleton, evalPath?_ofKey] at hpath
  refine ⟨hvalue, fun hfound heach => ?_, fun heach maxDepth members => ?_⟩
  · have hmissed := hvalue 0 [(key, .null)]
    rw [hfound, if_pos heach, Members.get?, List.lookup_cons_self] at hmissed
    exact absurd hmissed (by simp)
  · rw [hvalue, if_neg heach]

/-- What looks like a modifier, blanks, delimiters, a quote, a dot, a backslash and a `#`. -/
def awkwardKey : Text := "@this \x7b\"#\"\x7d.\\,:[|]\u3000".toList

def awkwardMembers : Members :=
  [("@this".toList, .null), (awkwardKey, .bool true)]

theorem get_escaped_awkward :
    awkwardKey ≠ [] ∧
      get 0 (.object awkwardMembers) awkwardKey.escaped = .ok (some (.bool true)) ∧
      get 0 (.object []) awkwardKey.escaped = .ok none := by
  have hne : awkwardKey ≠ [] := by decide
  have heach : awkwardKey ≠ Path.each := by decide
  have hmember : Members.get? awkwardMembers awkwardKey = some (.bool true) := rfl
  refine ⟨hne, ?_, ?_⟩
  · rw [(get_escaped hne).1, if_neg heach, hmember]
  · rw [(get_escaped hne).1, if_neg heach]
    rfl

/-- A member with the key `#` is not found. -/
theorem get_escaped_each :
    Members.get? [(Path.each, .bool true)] Path.each = some (.bool true) ∧
      "\\#".toList = Text.escaped Path.each ∧
      get defaultDepth (.object [(Path.each, .bool true)]) "\\#".toList = .ok none := by
  have htext : "\\#".toList = Path.escaped [Path.each] := by decide
  refine ⟨rfl, by decide, ?_⟩
  rw [htext, get_escapedPath (by simp) (by simp [Path.each]), List.map_singleton, evalPath?_ofKey,
    if_pos rfl]

end Projection

end Reshape
