import TemplateAnalysis.Variable.Match
import TemplateAnalysis.Variable.Iteration

/-! # Occurrences of variables

    Where in the template each path is read, and whether its first segment is
    bound by an iteration.
-/

namespace TemplateAnalysis.Variable

open Text Expression

/-- A path that is read by the expression at a position of the template. -/
structure Occurrence where
  path : List Char
  start : Nat
  byIteration : Bool
  deriving DecidableEq, Repr

/-- The first segment of a dotted path. -/
def firstSegment (path : List Char) : List Char :=
  path.takeWhile (· != '.')

/-- The occurrences of the variables of a template. The position is that of the
    first expression with the same text. -/
def occurrences (text : List Char) : List Occurrence :=
  let visible := stripEscaped text
  let names := iterationNames (bindings text)
  (templateMatches text).filterMap fun found =>
    (indexOf? found.source visible).map fun start =>
      ⟨found.path, start, names.contains (firstSegment found.path)⟩

end TemplateAnalysis.Variable
