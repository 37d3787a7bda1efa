import Reshape.Yaml.Token

/-!
# YAML nodes

The tree of a YAML document.  A missing key, value or entry is the plain scalar
without any text.
-/

namespace Reshape

namespace Yaml

/-- A node of a YAML document. -/
inductive Node where
  | scalar (plain : Bool) (text : Text)
  | sequence (items : List Node)
  | mapping (pairs : List (Node × Node))

instance : Inhabited Node := ⟨.scalar true []⟩

namespace Node

/-- The node that stands where nothing is written. -/
def missing : Node := .scalar true []

/-- Whether a token ends a place where a node may be missing. -/
def endsPlace (enders : List Token) : List Token → Bool
  | [] => true
  | token :: _ => enders.contains token

mutual

/-- Reads a node, unless one of the `enders` comes next. -/
def optional? : Nat → Bool → Bool → List Token → List Token → Option (Node × List Token)
  | 0, _, _, _, _ => none
  | fuel + 1, block, indentless, enders, tokens =>
      if endsPlace enders tokens then some (missing, tokens)
      else node? fuel block indentless tokens

/-- Reads a node.  Block collections are allowed if `block` is set, and a block
sequence without indentation of its own if `indentless` is. -/
def node? : Nat → Bool → Bool → List Token → Option (Node × List Token)
  | 0, _, _, _ => none
  | fuel + 1, block, indentless, tokens =>
      match tokens with
      | .scalar plain text :: rest => some (.scalar plain text, rest)
      | .openBracket :: rest => do
          let (items, rest) ← flowItems? fuel true rest
          return (.sequence items, rest)
      | .openBrace :: rest => do
          let (pairs, rest) ← flowPairs? fuel true rest
          return (.mapping pairs, rest)
      | .entry :: _ =>
          if indentless then do
            let (items, rest) ← indentlessItems? fuel tokens
            return (.sequence items, rest)
          else none
      | .sequence :: rest =>
          if block then do
            let (items, rest) ← blockItems? fuel rest
            return (.sequence items, rest)
          else none
      | .mapping :: rest =>
          if block then do
            let (pairs, rest) ← blockPairs? fuel rest
            return (.mapping pairs, rest)
          else none
      | _ => none

/-- Reads the entries of a block sequence up to its end. -/
def blockItems? : Nat → List Token → Option (List Node × List Token)
  | 0, _ => none
  | fuel + 1, tokens =>
      match tokens with
      | .blockEnd :: rest => some ([], rest)
      | .entry :: rest => do
          let (item, rest) ← optional? fuel true false [.entry, .blockEnd] rest
          let (items, rest) ← blockItems? fuel rest
          return (item :: items, rest)
      | _ => none

/-- Reads the entries of a block sequence that has no end of its own. -/
def indentlessItems? : Nat → List Token → Option (List Node × List Token)
  | 0, _ => none
  | fuel + 1, tokens =>
      match tokens with
      | .entry :: rest => do
          let (item, rest) ← optional? fuel true false [.entry, .key, .value, .blockEnd] rest
          let (items, rest) ← indentlessItems? fuel rest
          return (item :: items, rest)
      | tokens => some ([], tokens)

/-- Reads the pairs of a block mapping up to its end. -/
def blockPairs? : Nat → List Token → Option (List (Node × Node) × List Token)
  | 0, _ => none
  | fuel + 1, tokens =>
      match tokens with
      | .blockEnd :: rest => some ([], rest)
      | .key :: rest => do
          let (key, rest) ← optional? fuel true true [.key, .value, .blockEnd] rest
          let (value, rest) ← blockValue? fuel rest
          let (pairs, rest) ← blockPairs? fuel rest
          return ((key, value) :: pairs, rest)
      | _ => none

/-- Reads the value of a pair of a block mapping. -/
def blockValue? : Nat → List Token → Option (Node × List Token)
  | 0, _ => none
  | fuel + 1, tokens =>
      match tokens with
      | .value :: rest => optional? fuel true true [.key, .value, .blockEnd] rest
      | tokens => some (missing, tokens)

/-- Reads the items between brackets; a comma has to stand before each but the
`first`.  A pair without braces is a mapping of its own. -/
def flowItems? : Nat → Bool → List Token → Option (List Node × List Token)
  | 0, _, _ => none
  | fuel + 1, first, tokens =>
      match tokens with
      | .closeBracket :: rest => some ([], rest)
      | tokens => do
          let tokens ← afterComma? first tokens
          match tokens with
          | .closeBracket :: rest => return ([], rest)
          | .key :: rest =>
              let (key, rest) ← pairKey? fuel rest
              let (value, rest) ← flowValue? fuel .closeBracket rest
              let (items, rest) ← flowItems? fuel false rest
              return (.mapping [(key, value)] :: items, rest)
          | tokens =>
              let (item, rest) ← node? fuel false false tokens
              let (items, rest) ← flowItems? fuel false rest
              return (item :: items, rest)

/-- Reads the key of a pair between brackets.  A key that is missing takes the
token in its place with it. -/
def pairKey? : Nat → List Token → Option (Node × List Token)
  | 0, _ => none
  | fuel + 1, tokens =>
      match tokens with
      | .value :: rest => some (missing, rest)
      | .comma :: rest => some (missing, rest)
      | .closeBracket :: rest => some (missing, rest)
      | tokens => node? fuel false false tokens

/-- Reads the pairs between braces; a comma has to stand before each but the
`first`.  A key may stand alone. -/
def flowPairs? : Nat → Bool → List Token → Option (List (Node × Node) × List Token)
  | 0, _, _ => none
  | fuel + 1, first, tokens =>
      match tokens with
      | .closeBrace :: rest => some ([], rest)
      | tokens => do
          let tokens ← afterComma? first tokens
          match tokens with
          | .closeBrace :: rest => return ([], rest)
          | .key :: rest =>
              let (key, rest) ← optional? fuel false false [.value, .comma, .closeBrace] rest
              let (value, rest) ← flowValue? fuel .closeBrace rest
              let (pairs, rest) ← flowPairs? fuel false rest
              return ((key, value) :: pairs, rest)
          | tokens =>
              let (key, rest) ← node? fuel false false tokens
              let (pairs, rest) ← flowPairs? fuel false rest
              return ((key, missing) :: pairs, rest)

/-- Reads the value of a pair between brackets or braces. -/
def flowValue? : Nat → Token → List Token → Option (Node × List Token)
  | 0, _, _ => none
  | fuel + 1, closing, tokens =>
      match tokens with
      | .value :: rest => optional? fuel false false [.comma, closing] rest
      | tokens => some (missing, tokens)

/-- Moves over the comma between two items. -/
def afterComma? (first : Bool) (tokens : List Token) : Option (List Token) :=
  if first then some tokens
  else
    match tokens with
    | .comma :: rest => some rest
    | _ => none

end

/-- Reads the content of a document and what may stand behind it. -/
def content? (tokens : List Token) : Option Node := do
  let (node, rest) ←
    optional? (4 * tokens.length + 4) true false [.documentStart, .documentEnd] tokens
  if rest.all (· = .documentEnd) then some node else none

end Node

/-- Reads a text that holds at most one document.  The result holds no node if
there is no document at all. -/
def read? (text : Text) : Option (Option Node) := do
  match ← tokens? text with
  | [] => return none
  | .documentStart :: rest => return some (← Node.content? rest)
  | .documentEnd :: _ => none
  | tokens => return some (← Node.content? tokens)

end Yaml

end Reshape
