import Reshape.Rule.Basic
import Reshape.Rule.TargetTree
import Reshape.Settings.Basic

/-!
# From rules to a projection

A rule set becomes one expression.  Each source path is extended by the coercion
of its target type.  The target paths are merged into a tree, and the tree is
written as nested object literals.  Under the key `#` the values are columns,
one array for each leaf, which are grouped into rows.
-/

namespace Reshape

namespace Rule

/-- The source of a rule as a path of an expression, with its coercion. -/
def coercedSource (coercions : Coercions) (rule : Rule) : Text :=
  let path := if rule.source.path.isEmpty then "@this".toList else rule.source.path
  path ++ ((coercions.find rule.target.type).map (·.suffix)).getD []

/-- The keys of a target path.  References to the current value are left out.  A
path that does not start with `#` starts with the empty key, which stands for
the root. -/
def targetKeys (path : Path) : List Text :=
  let path := Text.erase "@this.".toList path
  let path := (Text.after? ['.'] path).getD path
  Path.segments (if path.head? = some '#' then path else '.' :: path)

end Rule

namespace TargetTree

/-- Whether a level has a key `#`, and thus stands for an array. -/
def isArray (tree : TargetTree) : Bool :=
  tree.any fun (key, _) => key = Path.each

/-- The text of an entry; neither the root nor an array is named. -/
def labelled (key value : Text) : Text :=
  if key.isEmpty || key = Path.each then value else key ++ ':' :: value

/-- The stage that groups columns inside `depth` arrays. -/
def grouping (depth : Nat) : Text :=
  "|@groupPlus:".toList ++ Text.ofNat (depth - 1)

end TargetTree

mutual

/-- The text of an entry.  `inArray` tells whether its level stands directly
under a `#`, and `depth` counts the arrays around it, including those that were
opened by an entry before it on its own level. -/
def Slot.expression (inArray : Bool) (depth : Nat) (key : Text) : Slot → Text
  | .leaf source => TargetTree.labelled key source
  | .branch entries =>
      let isElement : Bool := key = Path.each
      let body := Text.join [','] (TargetTree.parts isElement depth entries)
      let body :=
        if TargetTree.isArray entries then body
        else if inArray then '{' :: body ++ '}' :: TargetTree.grouping depth
        else '{' :: body ++ ['}']
      if isElement then body ++ TargetTree.grouping depth
      else TargetTree.labelled key body

/-- The texts of the entries of a level. -/
def TargetTree.parts (inArray : Bool) (depth : Nat) : List (Text × Slot) → List Text
  | [] => []
  | (key, slot) :: rest =>
      let depth := if key = Path.each && slot.isBranch then depth + 1 else depth
      slot.expression inArray depth key :: TargetTree.parts inArray depth rest

end

namespace RuleSet

/-- The target tree of a rule set. -/
def targetTree (coercions : Coercions) (rules : RuleSet) : TargetTree :=
  rules.foldl
    (fun tree rule =>
      tree.insert (rule.coercedSource coercions) (Rule.targetKeys rule.target.path)) []

/-- The projection of a rule set.  No rules give an empty text, and a single
rule without a target path gives its source. -/
def compile (coercions : Coercions) (rules : RuleSet) : Text :=
  let whole := Text.join [','] (TargetTree.parts false 0 (rules.targetTree coercions))
  match rules with
  | [] => []
  | [rule] => if rule.target.path.isEmpty then rule.coercedSource coercions else whole
  | _ => whole

end RuleSet

end Reshape
