import Reshape.Document.Writer
import Reshape.Projection.Evaluation

/-!
# Settings

Which types coerce which way, and how deeply the literals of an expression may
be nested.
-/

namespace Reshape

/-- The suffix that a source path gets for a type. -/
structure Coercion where
  type : Text
  suffix : Text
deriving DecidableEq, Repr

/-- A table of coercions; the first entry for a type counts. -/
abbrev Coercions := List Coercion

namespace Coercions

/-- The coercion for a type, up to the case of ASCII letters. -/
def find (coercions : Coercions) (type : Text) : Option Coercion :=
  coercions.find? fun coercion => Text.sameLetters coercion.type type

/-- The coercions that hold unless settings say otherwise. -/
def standard : Coercions :=
  [⟨"int".toList, ".@tonum".toList⟩, ⟨"integer".toList, ".@tonum".toList⟩,
   ⟨"number".toList, ".@tonum".toList⟩, ⟨"float".toList, ".@tonum".toList⟩,
   ⟨"bool".toList, ".@tobool".toList⟩, ⟨"boolean".toList, ".@tobool".toList⟩,
   ⟨"string".toList, ".@tostring".toList⟩]

/-- Replaces all coercions for a type by one at the end. -/
def set (coercions : Coercions) (coercion : Coercion) : Coercions :=
  coercions.filter (fun other => !Text.sameLetters other.type coercion.type) ++ [coercion]

end Coercions

/-- The settings of a mapping. -/
structure Settings where
  coercions : Coercions
  maxDepth : Nat
deriving DecidableEq, Repr

namespace Settings

/-- The settings that hold unless others are given. -/
def standard : Settings :=
  ⟨.standard, Projection.defaultDepth⟩

def withCoercion (settings : Settings) (coercion : Coercion) : Settings :=
  { settings with coercions := settings.coercions.set coercion }

def withMaxDepth (settings : Settings) (maxDepth : Nat) : Settings :=
  { settings with maxDepth }

/-- The JSON text of settings. -/
def toJson (settings : Settings) : Text :=
  let coercion (c : Coercion) : Document :=
    .object [("type".toList, .string c.type), ("convertFn".toList, .string c.suffix)]
  (Document.object
    [("coercions".toList, .array (settings.coercions.map coercion)),
     ("max_depth".toList, .ofNat settings.maxDepth)]).write

end Settings

end Reshape
