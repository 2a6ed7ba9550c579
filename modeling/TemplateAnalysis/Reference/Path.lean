import TemplateAnalysis.Reference.Region

/-! # Paths of references

    A region that refers to a template or resource is reduced to the path in
    it. Quotes, the braces of a link or fragment expression, the bars of a
    literal substitution, a resolver prefix, `~/` and a leading slash are no
    part of a path, and neither are a fragment selector and parameters. What is
    left has to be a path: something besides embedded expressions, and none of
    the characters that no path holds.
-/

namespace TemplateAnalysis.Reference

open Text Expression

/-- A path that is referred to, with its position in the text. -/
structure ReferredPath where
  path : List Char
  start : Nat
  deriving DecidableEq, Repr

/-- The position behind the path. -/
def ReferredPath.stop (reference : ReferredPath) : Nat :=
  reference.start + reference.path.length

/-- Characters that no path holds. -/
def isForbidden (c : Char) : Bool :=
  "<>:\"|?*".toList.contains c

/-- The text between the given spans, the first of which lies behind
    `position`. -/
def outsideSpans (text : List Char) (position : Nat) : List Span → List Char
  | [] => text.drop position
  | span :: rest => text.extract position span.start ++ outsideSpans text span.stop rest

/-- Is this a path? Embedded expressions in it can stand for anything. -/
def isPath (path : List Char) : Bool :=
  let literal := trim (outsideSpans path 0 (expressionSpans path))
  !literal.isEmpty && !literal.any isForbidden

/-- Is the path computed before all else, `__${…}__`? -/
def isPreprocessed (path : List Char) : Bool :=
  4 < path.length && ['_', '_'].isPrefixOf path && ['_', '_'].isSuffixOf path

/-- The region without the quote at its front and the same quote at its end. -/
def stripQuotes (text : List Char) (region : Span) : Span :=
  match text[region.start]? with
  | some quote =>
    if region.start < region.stop && isQuote quote then
      let start := region.start + 1
      ⟨start, if start < region.stop && charAt text (region.stop - 1) (· == quote)
        then region.stop - 1 else region.stop⟩
    else region
  | none => region

/-- The region without the braces of a link or fragment expression. -/
def stripWrapper (text : List Char) (region : Span) : Span :=
  if occursAt ['@', '{'] text region.start || occursAt ['~', '{'] text region.start then
    let start := region.start + 2
    ⟨start, if start < region.stop && charAt text (region.stop - 1) (· == '}')
      then region.stop - 1 else region.stop⟩
  else region

/-- Prefixes that tell the resolver where to look. -/
def resolverPrefixes : List (List Char) :=
  ["classpath:".toList, "file:".toList]

/-- The region without a resolver prefix: the first that fits is dropped. -/
def stripResolver (text : List Char) (region : Span) : Span :=
  match resolverPrefixes.find? fun p => occursAt p text region.start with
  | some found => { region with start := region.start + found.length }
  | none => region

/-- The region of a path, but for its selector and parameters. -/
def pathRegion (text : List Char) (region : Span) : Span :=
  let unwrapped := stripWrapper text (stripQuotes text (trimRegion text region))
  let named := stripResolver text (stripBars text unwrapped)
  dropToken ['/'] text (dropToken ['~', '/'] text named)

/-- The reference that a region makes, if it makes one. -/
def referenceIn (text : List Char) (region : Span) : List ReferredPath :=
  let whole := pathRegion text region
  -- What is computed before all else is a path as it stands, selector and all.
  if isPreprocessed (whole.slice text) then [⟨whole.slice text, whole.start⟩]
  else
    -- The selector goes first, so that its parameters are out of the way.
    let named := trimRegion text (cutAt ['('] text (cutAt [':', ':'] text whole))
    if isPath (named.slice text) then [⟨named.slice text, named.start⟩] else []

end TemplateAnalysis.Reference
