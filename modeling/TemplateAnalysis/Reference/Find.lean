import TemplateAnalysis.Markup.Attribute
import TemplateAnalysis.Reference.Path

/-! # References of a template

    References stand in the attributes that refer to other templates, and in
    the link and fragment expressions anywhere else. The value of an attribute
    can be a plain path, a fragment expression, or a condition with such
    branches.
-/

namespace TemplateAnalysis.Reference

open Text Expression Markup

/-! ## Attribute values -/

/-- The part of a fragment expression before its selector makes the reference. -/
def fragmentReferences (text : List Char) (region : Span) : List ReferredPath :=
  referenceIn text (cutAt [':', ':'] text region)

/-- The colon between the branches of a condition: the first at or behind
    `position` that is not part of a `::`. -/
def branchColon? (text : List Char) (position stop : Nat) : Option Nat :=
  match h : findTopLevelIn [':'] text position stop with
  | none => none
  | some colon =>
    -- A double colon belongs to the selector of a branch.
    if occursAt [':', ':'] text colon then branchColon? text (colon + 2) stop else some colon
termination_by stop - position
decreasing_by
  have := findTopLevelIn_bounds h
  omega

/-- The branches of a condition `c ? a : b` or of a default `c ?: a`; none when
    the region is not conditional. -/
def branches? (text : List Char) (region : Span) : Option (List Span) :=
  (findTopLevelIn ['?'] text region.start region.stop).map fun question =>
    if occursAt ['?', ':'] text question then [⟨question + 2, region.stop⟩]
    else match branchColon? text (question + 1) region.stop with
      | none => [⟨question + 1, region.stop⟩]
      | some colon => [⟨question + 1, colon⟩, ⟨colon + 1, region.stop⟩]

/-- The reference that a branch makes. Only a quoted path or a fragment
    expression makes one. -/
def branchReferences (text : List Char) (region : Span) : List ReferredPath :=
  let branch := trimRegion text region
  if branch.stop < branch.start + 2 then []
  else if charAt text branch.start isQuote && text[branch.stop - 1]? == text[branch.start]? then
    referenceIn text ⟨branch.start + 1, branch.stop - 1⟩
  else if isFragmentExpression text branch then
    fragmentReferences text ⟨branch.start + 2, branch.stop - 1⟩
  else []

/-- The references that the value of an attribute makes. -/
def valueReferences (text : List Char) (value : Span) : List ReferredPath :=
  let region := stripBars text value
  if region.stop ≤ region.start then []
  else match branches? text region with
    | some branches => branches.flatMap (branchReferences text)
    | none =>
      if isFragmentExpression text region then
        fragmentReferences text ⟨region.start + 2, region.stop - 1⟩
      else referenceIn text region

/-! ## Expressions -/

/-- The reference that the body of a link makes: its path without parameters,
    query and anchor. -/
def linkReferences (text : List Char) (region : Span) : List ReferredPath :=
  let bare := stripBars text region
  referenceIn text (cutAt ['#'] text (cutAt ['?'] text (cutAt ['('] text bare)))

/-- The references made by the link and fragment expressions of the text `cs`
    that stands at `position`, but for those that start in a covered span. -/
def expressionReferencesFrom (text : List Char) (covered : List Span) (position : Nat) :
    List Char → List ReferredPath
  | [] => []
  | [_] => []
  | c :: d :: rest =>
    if (c == '~' || c == '@') && d == '{' then
      -- The value of an attribute has been read as a whole already.
      if covered.any fun span => span.start ≤ position && position < span.stop then
        expressionReferencesFrom text covered (position + 2) rest
      else match closingOffset '{' '}' .outside 0 (d :: rest) with
        | none => expressionReferencesFrom text covered (position + 2) rest
        | some k =>
          let inner := ⟨position + 2, position + 1 + k⟩
          (if c == '~' then fragmentReferences text inner else linkReferences text inner) ++
            expressionReferencesFrom text covered (position + 2 + k) (rest.drop k)
    else expressionReferencesFrom text covered (position + 1) (d :: rest)
termination_by cs => cs.length
decreasing_by
  all_goals
    simp only [List.length_cons, List.length_drop]
    omega

/-! ## All references -/

/-- The path with every backslash as a slash. -/
def withSlashes (path : List Char) : List Char :=
  path.map fun c => if c = '\\' then '/' else c

/-- Every reference to a path that a text makes, before repetitions are left
    out: those of attributes, then those of expressions outside of them. -/
def candidates (text : List Char) : List ReferredPath :=
  let values := (attributesNamed referenceAttributes text).map fun attr =>
    (⟨attr.start, attr.stop⟩ : Span)
  values.flatMap (valueReferences text) ++ expressionReferencesFrom text values 0 text

/-- The references without those to a path that was referred to before. -/
def distinct (seen : List (List Char)) : List ReferredPath → List ReferredPath
  | [] => []
  | reference :: rest =>
    let path := withSlashes reference.path
    if seen.contains path then distinct seen rest
    else reference :: distinct (path :: seen) rest

/-- The paths a text refers to, in the order of the text, each once. -/
def references (text : List Char) : List ReferredPath :=
  distinct [] ((candidates text).mergeSort fun a b => a.start ≤ b.start)

end TemplateAnalysis.Reference
