import Reshape.Path.Direction
import Reshape.Path.TypeSuffix
import Reshape.Upsert

/-!
# Mapping rules

A rule sends the value at a source path to a target path; either end may carry
the name of a type.  Rules form ordered sets.  Two rules are the same rule if
their four texts agree up to the case of ASCII letters; upserting a rule
replaces the same rule in place, so rule sets that are built by upserting hold
no rule twice.
-/

namespace Reshape

/-- One end of a rule: a path and the name of a type, empty if there is none. -/
structure Endpoint where
  path : Path
  type : Text
deriving DecidableEq, Repr

namespace Endpoint

/-- Reads a path with a type suffix. -/
def ofText (text : Text) : Endpoint :=
  let (path, type) := Path.splitType text
  ⟨path, type⟩

/-- A path and its type suffix. -/
def text (endpoint : Endpoint) : Text :=
  if endpoint.type.isEmpty then endpoint.path else endpoint.path ++ '@' :: endpoint.type

/-- Equality up to the case of ASCII letters. -/
def same (left right : Endpoint) : Bool :=
  Text.sameLetters left.path right.path && Text.sameLetters left.type right.type

end Endpoint

/-- A mapping rule. -/
structure Rule where
  source : Endpoint
  target : Endpoint
deriving DecidableEq, Repr

namespace Rule

/-- Whether two rules are the same rule. -/
def same (left right : Rule) : Bool :=
  left.source.same right.source && left.target.same right.target

/-- The rule read in the other direction. -/
def swap (rule : Rule) : Rule :=
  ⟨rule.target, rule.source⟩

/-- Whether the source is an input of a function. -/
def isIn (rule : Rule) : Bool :=
  rule.source.path.isIn

/-- Whether the source is an output of a function. -/
def isOut (rule : Rule) : Bool :=
  rule.source.path.isOut

/-- The text of a rule. -/
def text (rule : Rule) : Text :=
  rule.source.text ++ ':' :: rule.target.text

end Rule

/-- An ordered list of rules. -/
abbrev RuleSet := List Rule

namespace RuleSet

/-! ## Building -/

/-- Adds a rule in the place of the same rule, or at the end. -/
def add (rules : RuleSet) (rule : Rule) : RuleSet :=
  upsert Rule.same rule rules

/-- Adds rules one after the other. -/
def addAll (rules more : RuleSet) : RuleSet :=
  upsertAll Rule.same rules more

/-- The rules of a list, each once. -/
def collected (rules : List Rule) : RuleSet :=
  collect Rule.same rules

/-! ## Selecting -/

/-- The rules whose source is an input. -/
def inputs (rules : RuleSet) : RuleSet :=
  collected (rules.filter Rule.isIn)

/-- The rules whose source is an output. -/
def outputs (rules : RuleSet) : RuleSet :=
  collected (rules.filter Rule.isOut)

/-- For each of the given paths, the first rule with that path at one of its
ends, up to the case of ASCII letters. -/
def pick (side : Rule → Endpoint) (rules : RuleSet) (paths : List Path) : RuleSet :=
  collected (paths.filterMap fun path =>
    rules.find? fun rule => Text.sameLetters (side rule).path path)

/-- The rules whose source lies under a namespace. -/
def under (space : Text) (rules : RuleSet) : RuleSet :=
  let space := Text.trimEnd (· == '.') space ++ ['.']
  collected (rules.filter fun rule => rule.source.path.hasNamespace space)

/-! ## Changing -/

/-- All rules read in the other direction. -/
def swapped (rules : RuleSet) : RuleSet :=
  rules.map Rule.swap

/-- Changes all source paths. -/
def mapSources (f : Path → Path) (rules : RuleSet) : RuleSet :=
  collected (rules.map fun rule => { rule with source.path := f rule.source.path })

/-- Changes all target paths. -/
def mapTargets (f : Path → Path) (rules : RuleSet) : RuleSet :=
  collected (rules.map fun rule => { rule with target.path := f rule.target.path })

/-- The rules in order of their source paths.  Rules with one source path stay
in order. -/
def sortedBySource (rules : RuleSet) : RuleSet :=
  rules.mergeSort fun left right => Text.le left.source.path right.source.path

/-! ## Asking -/

/-- The distinct target paths. -/
def targets (rules : RuleSet) : List Path :=
  distinct (rules.map (·.target.path))

/-- The distinct texts before the first occurrence of `mark` in the source
paths. -/
def sourceSpaces (mark : Text) (rules : RuleSet) : List Text :=
  distinct (rules.filterMap fun rule => (Text.cutAt? mark rule.source.path).map (·.1))

end RuleSet

end Reshape
