import TemplateAnalysis.Expression.Nesting

/-! # Embedded expressions

    An expression in a template opens with one of the sigils `$ * # @ ~` and
    an opening brace, and ends with the brace that closes it. A backslash in
    front of the sigil makes it plain text.
-/

namespace TemplateAnalysis.Expression

open Text

/-- A character that opens an expression when a brace follows it. -/
def isSigil (c : Char) : Bool :=
  c == '$' || c == '*' || c == '#' || c == '@' || c == '~'

/-- Does an expression open anywhere in the text? -/
def hasExpressionStart : List Char → Bool
  | c :: d :: rest => (isSigil c && d == '{') || hasExpressionStart (d :: rest)
  | _ => false

/-- A stretch of a text, from `start` up to but not including `stop`. -/
structure Span where
  start : Nat
  stop : Nat
  deriving DecidableEq, Repr

/-- The characters of a stretch. -/
def Span.slice (span : Span) (text : List Char) : List Char :=
  text.extract span.start span.stop

/-! ## Complete expressions -/

/-- The complete expressions of the text `cs` that stands at `position`, each
    with both ends before `stop`. An expression that does not end there is
    passed over, and the search goes on behind its brace. -/
def spansFrom (stop position : Nat) : List Char → List Span
  | [] => []
  | [_] => []
  | c :: d :: rest =>
    if isSigil c && d == '{' && position + 2 ≤ stop then
      match closingOffset '{' '}' .outside 0 (d :: rest) with
      | none => spansFrom stop (position + 2) rest
      | some k =>
        -- The brace that closes it may stand behind the window.
        if position + 1 + k < stop then
          ⟨position, position + 2 + k⟩ :: spansFrom stop (position + 2 + k) (rest.drop k)
        else spansFrom stop (position + 2) rest
    else spansFrom stop (position + 1) (d :: rest)
termination_by cs => cs.length
decreasing_by
  all_goals
    simp only [List.length_cons, List.length_drop]
    omega

/-- The complete expressions within a window, outermost only. The closing
    brace is looked for in the whole text and has to lie in the window. -/
def expressionSpansIn (text : List Char) (start stop : Nat) : List Span :=
  spansFrom stop start (text.drop start)

/-- The complete expressions of a text, outermost only. -/
def expressionSpans (text : List Char) : List Span :=
  expressionSpansIn text 0 text.length

/-! ## Escaped expressions -/

/-- The text with every escaped expression blanked out, its backslash
    included. Blanks take the place of the characters one for one and newlines
    stay, so positions keep their meaning. Of an expression that is never
    closed only the start is blanked. -/
def stripEscaped : List Char → List Char
  | '\\' :: c :: '{' :: rest =>
    if isSigil c then
      -- The closing brace is covered as well: its offset counts from the opening one.
      let covered := (closingOffset '{' '}' .outside 0 ('{' :: rest)).getD 0
      ' ' :: ' ' :: ' ' ::
        ((rest.take covered).map fun d => if d = '\n' then d else ' ') ++
          stripEscaped (rest.drop covered)
    else '\\' :: stripEscaped (c :: '{' :: rest)
  | c :: rest => c :: stripEscaped rest
  | [] => []
termination_by cs => cs.length

end TemplateAnalysis.Expression
