import TemplateAnalysis.Expression.Span

/-! # Regions of a text

    A reference is cut out of a text step by step: blanks, bars, quotes and
    wrappers fall away at the ends of a region, and what is left over keeps its
    position in the text. A region whose end lies before its start is empty.
-/

namespace TemplateAnalysis.Reference

open Text Expression

/-- Does the character at a position satisfy the test? -/
def charAt (text : List Char) (position : Nat) (test : Char → Bool) : Bool :=
  text[position]?.any test

/-- The region without the blanks at its front. -/
def trimFront (text : List Char) (region : Span) : Span :=
  if region.start < region.stop then
    if charAt text region.start isBlank then
      trimFront text { region with start := region.start + 1 }
    else region
  else region
termination_by region.stop - region.start

/-- The region without the blanks at its end. -/
def trimBack (text : List Char) (region : Span) : Span :=
  if region.start < region.stop then
    if charAt text (region.stop - 1) isBlank then
      trimBack text { region with stop := region.stop - 1 }
    else region
  else region
termination_by region.stop - region.start
decreasing_by omega

/-- The region without the blanks at either end. -/
def trimRegion (text : List Char) (region : Span) : Span :=
  trimBack text (trimFront text region)

/-- The region without the bars of a literal substitution and the blanks on
    either side of them. -/
def stripBars (text : List Char) (region : Span) : Span :=
  let trimmed := trimRegion text region
  if trimmed.start + 2 ≤ trimmed.stop && charAt text trimmed.start (· == '|') &&
      charAt text (trimmed.stop - 1) (· == '|') then
    trimRegion text ⟨trimmed.start + 1, trimmed.stop - 1⟩
  else trimmed

/-- Does the region hold one whole fragment expression? -/
def isFragmentExpression (text : List Char) (region : Span) : Bool :=
  occursAt ['~', '{'] text region.start &&
    findClosing text (region.start + 1) == some (region.stop - 1)

/-- Cut the region short where `token` first stands outside quotes and
    brackets. -/
def cutAt (token : List Char) (text : List Char) (region : Span) : Span :=
  match findTopLevelIn token text region.start region.stop with
  | some stop => { region with stop := stop }
  | none => region

/-- Drop `token` from the front of the region when the text goes on with it
    there. -/
def dropToken (token : List Char) (text : List Char) (region : Span) : Span :=
  if occursAt token text region.start then
    { region with start := region.start + token.length }
  else region

end TemplateAnalysis.Reference
