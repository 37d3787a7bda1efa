import Reshape.Rule.Basic

/-!
# Rules as lines

Rules are written one on a line, source and target with a colon between them.
A line without a colon is a rule from a path to itself.  Blank lines and blanks
around a line do not count.
-/

namespace Reshape

namespace Rule

/-- The two sides of a line: the text before and behind its first colon, or
twice the line. -/
def sides (line : Text) : Text × Text :=
  (Text.cutAt? [':'] line).getD (line, line)

/-- The rule of a line. -/
def ofLine (line : Text) : Rule :=
  let (source, target) := sides line
  ⟨.ofText source, .ofText target⟩

end Rule

namespace RuleSet

/-- The lines that hold a rule, without the blanks around them. -/
def ruleLines (text : Text) : List Text :=
  (text.lines.map Text.trim).filter (!·.isEmpty)

/-- Reads rules from lines.  Every line that is not blank gives a rule, repeated
or not. -/
def ofText (text : Text) : RuleSet :=
  (ruleLines text).map Rule.ofLine

/-- Writes rules as lines. -/
def text (rules : RuleSet) : Text :=
  rules.flatMap fun rule => rule.text ++ ['\n']

end RuleSet

end Reshape
