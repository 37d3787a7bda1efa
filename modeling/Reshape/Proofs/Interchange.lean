import Reshape.Proofs.PlainPath
import Reshape.Rule.Interchange

/-!
# Rules read back from JSON

The compact JSON text of a set of rules is read back as the same rules.  There are three
steps.

* Strings.  Every character is escaped such that it is scanned as its own code point, and
  code points of characters are never halves of a pair.
* Values.  `Written.Scans` says that a text is scanned as a value, whatever follows the text.
  It is proved for strings, and for arrays and objects from their parts.
* Rules.  `RuleSet.ofJson?_toJson` puts the parts of a set of rules together.
-/

namespace Reshape

/-! ## Strings -/

namespace Written

theorem hexValue?_hexDigit {n : Nat} (h : n < 16) :
    Text.hexValue? (Text.hexDigit n) = some n := by
  have hall : ∀ n < 16, Text.hexValue? (Text.hexDigit n) = some n := by decide
  exact hall n h

/-- A control character is scanned from its four hexadecimal digits. -/
theorem hexUnit?_control {n : Nat} (h : n < 32) :
    hexUnit? '0' '0' (Text.hexDigit (n / 16)) (Text.hexDigit (n % 16)) = some n := by
  have hzero : Text.hexValue? '0' = some 0 := by decide
  have hhigh : Text.hexValue? (Text.hexDigit (n / 16)) = some (n / 16) :=
    hexValue?_hexDigit (by omega)
  have hlow : Text.hexValue? (Text.hexDigit (n % 16)) = some (n % 16) :=
    hexValue?_hexDigit (by omega)
  simp only [hexUnit?, hzero, hhigh, hlow, Option.bind_eq_bind, Option.bind_some, Option.pure_def]
  congr 1
  omega

/-- Every escape but that of four digits is a backslash and one character. -/
theorem scanString?_short {c : Char} {code : Nat} (h : shortEscape? c = some code) (text : Text) :
    scanString? ('\\' :: c :: text) =
      (scanString? text).map fun (units, rest) => (code :: units, rest) := by
  have hu : c ≠ 'u' := by
    rintro rfl
    simp [shortEscape?] at h
  rw [scanString?.eq_4 _ _ (fun _ _ _ _ _ he => absurd he hu), h]
  cases scanString? text <;> rfl

/-- An escaped character is scanned as its code point. -/
theorem scanString?_escapeChar (c : Char) (text : Text) :
    scanString? (Document.escapeChar c ++ text) =
      (scanString? text).map fun (units, rest) => (c.toNat :: units, rest) := by
  unfold Document.escapeChar
  split
  -- all cases but the last are characters that are escaped by a letter
  case h_8 hquote hslash _ _ _ _ _ =>
    split
    · rename_i hcontrol
      simp only [List.cons_append, List.nil_append, scanString?, hexUnit?_control hcontrol]
      cases scanString? text <;> rfl
    · rename_i hcontrol
      have hslash' : c ≠ '\\' := hslash
      simp only [List.cons_append, List.nil_append]
      rw [scanString?.eq_5 _ _ hquote (fun _ _ _ _ _ he => absurd he hslash')
        fun _ _ he => absurd he hslash']
      have hraw : (decide (c.toNat < 0x20) || decide (c = '\\')) = false := by
        simp [hcontrol, hslash']
      rw [hraw, if_neg (by simp)]
      cases scanString? text <;> rfl
  all_goals exact scanString?_short rfl text

theorem scanString?_quoted (content rest : Text) :
    scanString? (content.flatMap Document.escapeChar ++ '"' :: rest) =
      some (content.map Char.toNat, rest) := by
  induction content with
  | nil => rfl
  | cons c content ih =>
    rw [List.flatMap_cons, List.append_assoc, scanString?_escapeChar, ih]
    rfl

/-- No character is half of a pair. -/
theorem decodeUnits?_toNat (content : Text) :
    decodeUnits? (content.map Char.toNat) = some content := by
  induction content with
  | nil => rfl
  | cons c content ih =>
    have hvalid : c.toNat < 0xD800 ∨ 0xDFFF < c.toNat := c.valid.imp id And.left
    have hhigh : (decide (0xD800 ≤ c.toNat) && decide (c.toNat ≤ 0xDBFF)) = false := by
      simp only [Bool.and_eq_false_iff, decide_eq_false_iff_not]
      omega
    have hlow : (decide (0xDC00 ≤ c.toNat) && decide (c.toNat ≤ 0xDFFF)) = false := by
      simp only [Bool.and_eq_false_iff, decide_eq_false_iff_not]
      omega
    rw [List.map_cons, decodeUnits?.eq_def]
    simp [hhigh, hlow, ih]

/-! ## Values -/

/-- The text is scanned as the value, whatever follows it, and as much fuel as the text has
characters is enough.  It begins with a character that is no space and does not end an
array. -/
structure Scans (written : Written) (text : Text) : Prop where
  opens : ∃ c more, text = c :: more ∧ isSpace c = false ∧ c ≠ ']'
  scan?_append : ∀ fuel rest, text.length ≤ fuel → scan? fuel (text ++ rest) = some (written, rest)

theorem skipSpace_cons {c : Char} (h : isSpace c = false) (rest : Text) :
    skipSpace (c :: rest) = c :: rest := by
  simp [skipSpace, h]

theorem scans_string (content : Text) :
    Scans (.string (some content)) (Document.quote content) := by
  refine ⟨⟨'"', _, rfl, by decide, by decide⟩, ?_⟩
  intro fuel rest hfuel
  rw [Document.quote, List.length_append, List.length_singleton] at hfuel
  obtain ⟨fuel, rfl⟩ : ∃ n, fuel = n + 1 := Nat.exists_eq_add_one.2 (by omega)
  have htext : Document.quote content ++ rest =
      '"' :: (content.flatMap Document.escapeChar ++ '"' :: rest) := by
    simp [Document.quote]
  rw [htext, scan?, skipSpace_cons (by decide)]
  simp [scanString?_quoted, decodeUnits?_toNat]

theorem join_cons_cons (text next : Text) (texts : List Text) :
    Text.join [','] (text :: next :: texts) = text ++ ',' :: Text.join [','] (next :: texts) := by
  rw [Text.join_cons _ (by simp)]
  simp

theorem exists_join_eq_cons (c : Char) (more : Text) (texts : List Text) :
    ∃ tail, Text.join [','] ((c :: more) :: texts) = c :: tail := by
  cases texts with
  | nil => exact ⟨more, rfl⟩
  | cons next texts => exact ⟨_, rfl⟩

/-- The items of an array are scanned one after the other. -/
theorem scanItems?_join {items : List Written} {texts : List Text}
    (h : List.Forall₂ Scans items texts) (hne : items ≠ []) (fuel : Nat) (rest : Text)
    (hfuel : (Text.join [','] texts).length < fuel) :
    scanItems? fuel (Text.join [','] texts ++ ']' :: rest) = some (items, rest) := by
  induction h generalizing fuel with
  | nil => exact absurd rfl hne
  | @cons item text items texts hitem hitems ih =>
    obtain ⟨fuel, rfl⟩ : ∃ n, fuel = n + 1 := Nat.exists_eq_add_one.2 (by omega)
    cases hitems with
    | nil =>
      have hlast := hitem.scan?_append fuel (']' :: rest) (by simpa using Nat.le_of_lt_succ hfuel)
      rw [Text.join_singleton, scanItems?, hlast]
      simp [skipSpace_cons (show isSpace ']' = false by decide)]
    | @cons next following items texts hnext hrest =>
      rw [join_cons_cons, List.length_append, List.length_cons] at hfuel
      have hfirst := hitem.scan?_append fuel
        (',' :: Text.join [','] (following :: texts) ++ ']' :: rest) (by omega)
      have hmore := ih (by simp) fuel (by omega)
      rw [join_cons_cons, List.append_assoc, scanItems?, hfirst]
      simp [skipSpace_cons (show isSpace ',' = false by decide), hmore]

theorem scans_array {items : List Written} {texts : List Text}
    (h : List.Forall₂ Scans items texts) :
    Scans (.array items) ('[' :: Text.join [','] texts ++ [']']) := by
  refine ⟨⟨'[', _, rfl, by decide, by decide⟩, ?_⟩
  intro fuel rest hfuel
  rw [List.cons_append, List.length_cons, List.length_append, List.length_singleton] at hfuel
  obtain ⟨fuel, rfl⟩ : ∃ n, fuel = n + 1 := Nat.exists_eq_add_one.2 (by omega)
  rw [List.cons_append, List.cons_append, List.append_assoc, List.singleton_append, scan?,
    skipSpace_cons (by decide)]
  cases h with
  | nil => simp [skipSpace_cons (show isSpace ']' = false by decide)]
  | @cons item text items texts hitem hitems =>
    have hscan := scanItems?_join (.cons hitem hitems) (by simp) fuel rest (by omega)
    obtain ⟨c, more, rfl, hspace, hclose⟩ := hitem.opens
    obtain ⟨tail, htail⟩ := exists_join_eq_cons c more texts
    rw [htail, List.cons_append] at hscan ⊢
    simp [skipSpace_cons hspace, hclose, hscan]

/-- The text is a key in quotes and a text that is scanned as the value. -/
def ScansMember (member : Text × Written) (text : Text) : Prop :=
  ∃ value, text = Document.quote member.1 ++ ':' :: value ∧ Scans member.2 value

/-- The first member is scanned, and then what follows it is looked at. -/
theorem scanMembers?_member {member : Text × Written} {text : Text} (h : ScansMember member text)
    (fuel : Nat) (rest : Text) (hfuel : text.length ≤ fuel) :
    scanMembers? (fuel + 1) (text ++ '}' :: rest) = some ([(some member.1, member.2)], rest) ∧
    scanMembers? (fuel + 1) (text ++ ',' :: rest) =
      (scanMembers? fuel rest).map fun (members, rest) =>
        ((some member.1, member.2) :: members, rest) := by
  obtain ⟨value, rfl, hvalue⟩ := h
  have hlength : value.length ≤ fuel := by
    rw [List.length_append, List.length_cons] at hfuel
    omega
  have htext : ∀ tail, Document.quote member.1 ++ ':' :: value ++ tail =
      '"' :: (member.1.flatMap Document.escapeChar ++ '"' :: ':' :: (value ++ tail)) := by
    intro tail
    simp [Document.quote]
  constructor
  · rw [htext, scanMembers?, skipSpace_cons (by decide)]
    simp [scanString?_quoted, decodeUnits?_toNat, hvalue.scan?_append fuel _ hlength,
      skipSpace_cons (show isSpace ':' = false by decide),
      skipSpace_cons (show isSpace '}' = false by decide)]
  · rw [htext, scanMembers?, skipSpace_cons (by decide)]
    cases hmore : scanMembers? fuel rest <;>
      simp [scanString?_quoted, decodeUnits?_toNat, hvalue.scan?_append fuel _ hlength, hmore,
        skipSpace_cons (show isSpace ':' = false by decide),
        skipSpace_cons (show isSpace ',' = false by decide)]

/-- The members of an object are scanned one after the other. -/
theorem scanMembers?_join {members : List (Text × Written)} {texts : List Text}
    (h : List.Forall₂ ScansMember members texts) (hne : members ≠ []) (fuel : Nat) (rest : Text)
    (hfuel : (Text.join [','] texts).length < fuel) :
    scanMembers? fuel (Text.join [','] texts ++ '}' :: rest) =
      some (members.map fun member => (some member.1, member.2), rest) := by
  induction h generalizing fuel with
  | nil => exact absurd rfl hne
  | @cons member text members texts hmember hmembers ih =>
    obtain ⟨fuel, rfl⟩ : ∃ n, fuel = n + 1 := Nat.exists_eq_add_one.2 (by omega)
    cases hmembers with
    | nil =>
      have hlength : text.length ≤ fuel := by simpa using Nat.le_of_lt_succ hfuel
      exact (scanMembers?_member hmember fuel rest hlength).1
    | @cons next following members texts hnext hrest =>
      rw [join_cons_cons, List.length_append, List.length_cons] at hfuel
      have hfirst := (scanMembers?_member hmember fuel
        (Text.join [','] (following :: texts) ++ '}' :: rest) (by omega)).2
      rw [join_cons_cons, List.append_assoc, List.cons_append, hfirst, ih (by simp) fuel (by omega)]
      rfl

theorem scans_object {members : List (Text × Written)} {texts : List Text}
    (h : List.Forall₂ ScansMember members texts) :
    Scans (.object (members.map fun member => (some member.1, member.2)))
      ('{' :: Text.join [','] texts ++ ['}']) := by
  refine ⟨⟨'{', _, rfl, by decide, by decide⟩, ?_⟩
  intro fuel rest hfuel
  rw [List.cons_append, List.length_cons, List.length_append, List.length_singleton] at hfuel
  obtain ⟨fuel, rfl⟩ : ∃ n, fuel = n + 1 := Nat.exists_eq_add_one.2 (by omega)
  rw [List.cons_append, List.cons_append, List.append_assoc, List.singleton_append, scan?,
    skipSpace_cons (by decide)]
  cases h with
  | nil => simp [skipSpace_cons (show isSpace '}' = false by decide)]
  | @cons member text members texts hmember hmembers =>
    have hscan := scanMembers?_join (.cons hmember hmembers) (by simp) fuel rest (by omega)
    obtain ⟨value, rfl, -⟩ := hmember
    obtain ⟨tail, htail⟩ := exists_join_eq_cons '"'
      (member.1.flatMap Document.escapeChar ++ ['"'] ++ ':' :: value) texts
    have hquote : Document.quote member.1 ++ ':' :: value =
        '"' :: (member.1.flatMap Document.escapeChar ++ ['"'] ++ ':' :: value) := rfl
    rw [hquote, htail, List.cons_append] at hscan
    rw [hquote, htail, List.cons_append]
    simp [skipSpace_cons (show isSpace '"' = false by decide), hscan]

/-- A text that is scanned as a value is read as this value. -/
theorem Scans.read?_eq {written : Written} {text : Text} (h : Scans written text) :
    read? text = some written := by
  have hscan := h.scan?_append (text.length + 1) [] (Nat.le_succ _)
  rw [List.append_nil] at hscan
  simp [read?, hscan, skipSpace]

end Written

/-! ## Rules -/

namespace Endpoint

/-- An end of a rule as it is written. -/
def written (endpoint : Endpoint) : Written :=
  .object [(some "path".toList, .string (some endpoint.path)),
    (some "type".toList, .string (some endpoint.type))]

theorem scans_written (endpoint : Endpoint) :
    Written.Scans endpoint.written endpoint.toDocument.write := by
  have hmembers : List.Forall₂ Written.ScansMember
      [("path".toList, .string (some endpoint.path)), ("type".toList, .string (some endpoint.type))]
      [Document.quote "path".toList ++ ':' :: Document.quote endpoint.path,
        Document.quote "type".toList ++ ':' :: Document.quote endpoint.type] :=
    .cons ⟨_, rfl, Written.scans_string _⟩ (.cons ⟨_, rfl, Written.scans_string _⟩ .nil)
  exact Written.scans_object hmembers

theorem ofWritten?_written (endpoint : Endpoint) :
    ofWritten? endpoint.written = some endpoint := by
  simp [ofWritten?, written, Written.fields?, Written.under, Written.text?]

end Endpoint

namespace Rule

/-- A rule as it is written. -/
def written (rule : Rule) : Written :=
  .object [(some "src".toList, rule.source.written), (some "dst".toList, rule.target.written)]

theorem scans_written (rule : Rule) : Written.Scans rule.written rule.toDocument.write := by
  have hmembers : List.Forall₂ Written.ScansMember
      [("src".toList, rule.source.written), ("dst".toList, rule.target.written)]
      [Document.quote "src".toList ++ ':' :: rule.source.toDocument.write,
        Document.quote "dst".toList ++ ':' :: rule.target.toDocument.write] :=
    .cons ⟨_, rfl, rule.source.scans_written⟩ (.cons ⟨_, rfl, rule.target.scans_written⟩ .nil)
  exact Written.scans_object hmembers

theorem ofWritten?_written (rule : Rule) : ofWritten? rule.written = some rule := by
  simp [ofWritten?, written, Written.fields?, Written.under, Endpoint.ofWritten?_written]

end Rule

namespace RuleSet

theorem scans_written (rules : RuleSet) :
    Written.Scans (.array (rules.map Rule.written)) rules.toJson := by
  have hitems : List.Forall₂ Written.Scans (rules.map Rule.written)
      (Document.writeItems (rules.map Rule.toDocument)) := by
    induction rules with
    | nil => exact .nil
    | cons rule rules ih => exact .cons rule.scans_written ih
  exact Written.scans_array hitems

theorem mapM_ofWritten? (rules : RuleSet) :
    (rules.map Rule.written).mapM Rule.ofWritten? = some rules := by
  induction rules with
  | nil => rfl
  | cons rule rules ih =>
    rw [List.map_cons, List.mapM_cons, Rule.ofWritten?_written, ih]
    rfl

/-- The JSON text of a set of rules holds the rules, in their order, whatever characters their
four texts are made of. -/
theorem ofJson?_toJson (rules : RuleSet) : ofJson? rules.toJson = some rules := by
  have hblank : rules.toJson.isAllBlank = false := rfl
  rw [ofJson?, hblank, if_neg (by simp), (scans_written rules).read?_eq, Option.bind_some,
    Written.list?, Written.items?, Option.bind_some, mapM_ofWritten?]

end RuleSet

end Reshape
