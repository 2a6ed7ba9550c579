import TemplateAnalysis.Markup.Attribute
import TemplateAnalysis.Variable.Walk

/-! # The variables of a template

    Every expression of a template is reported as the paths it reads. An
    expression is taken apart into **parts** by its sigil:

    * `$` and `*`: the body is an expression body;
    * `#`: a message key and arguments, which are expression bodies unless
      they embed expressions of their own;
    * `@` and `~`: plain text, parameters and selectors that only matter for
      the expressions embedded in them.

    What is embedded in a part is an expression again, shorter than the one
    it stands in, and so the analysis ends.
-/

namespace TemplateAnalysis.Variable

open Text Expression Markup

/-- A path that is read, with the text of the expression that reads it. -/
structure Match where
  source : List Char
  path : List Char
  deriving DecidableEq, Repr

/-! ## Parts of an expression -/

/-- A part of an expression that is analysed on its own. -/
inductive Part
  /-- The key of a message, reported as it is. -/
  | key (text : List Char)
  /-- Text of which only the embedded expressions count. -/
  | plain (text : List Char)
  /-- An expression body, read by the expression around it. -/
  | body (text : List Char)
  deriving DecidableEq, Repr

/-- The text of a part. -/
def Part.text : Part → List Char
  | .key text | .plain text | .body text => text

/-- What stands between a bracket and its partner: everything behind it when it
    is never closed. -/
def bracketed (text : List Char) (position : Nat) : List Char :=
  match findClosing text position with
  | some close => text.extract (position + 1) close
  | none => text.drop (position + 1)

/-- The key of a message: what stands before its arguments. -/
def messageKey (body : List Char) : List Char :=
  match findTopLevel ['('] body with
  | some paren => trim (body.take paren)
  | none => trim body

/-- The key of a message, when it is neither a literal nor empty, or the text
    that computes it. -/
def keyParts (key : List Char) : List Part :=
  if hasExpressionStart key then [.plain key]
  else if key.isEmpty || isStringLiteral key then []
  else [.key key]

/-- An argument of a message. Literals read nothing. -/
def argumentParts (argument : List Char) : List Part :=
  if hasExpressionStart argument then [.plain argument]
  else if isStringLiteral argument || isNumericLiteral argument then []
  else [.body argument]

/-- The parts of a message `#{key(arguments)}`. -/
def messageParts (body : List Char) : List Part :=
  keyParts (messageKey body) ++
    match findTopLevel ['('] body with
    | some paren => (splitParameters (bracketed body paren)).flatMap argumentParts
    | none => []

/-- The parts of a link `@{path(name=value)}`. What stands behind the
    parameters is not read. -/
def linkParts (body : List Char) : List Part :=
  match findTopLevel ['('] body with
  | some paren =>
    .plain (body.take paren) ::
      (splitParameters (bracketed body paren)).map fun parameter =>
        .plain (assignedValue parameter)
  | none => [.plain body]

/-- The parts of a fragment expression `~{template :: selector(name=value)}`. -/
def fragmentParts (body : List Char) : List Part :=
  match findTopLevel [':', ':'] body with
  | some separator => .plain (body.take separator) :: linkParts (body.drop (separator + 2))
  | none => [.plain body]

/-- What stands between the braces of an expression. -/
def innerText (expression : List Char) : List Char :=
  (expression.drop 2).dropLast

/-- The parts of an expression. -/
def parts : List Char → List Part
  | [] => []
  | sigil :: rest =>
    let body := innerText (sigil :: rest)
    if sigil == '$' || sigil == '*' then [.body body]
    else if sigil == '#' then messageParts body
    else if sigil == '@' then linkParts body
    else if sigil == '~' then fragmentParts body
    else []

theorem length_bracketed_le (text : List Char) (position : Nat) :
    (bracketed text position).length ≤ text.length := by
  unfold bracketed
  split
  · rw [List.extract_eq_take_drop, List.length_take, List.length_drop]
    omega
  · exact List.length_drop ▸ Nat.sub_le _ _

theorem length_messageKey_le (body : List Char) : (messageKey body).length ≤ body.length := by
  unfold messageKey
  split
  · exact Nat.le_trans (length_trim_le _) (List.length_take_le' _ _)
  · exact length_trim_le body

theorem length_le_of_mem_linkParts {body : List Char} {part : Part} (h : part ∈ linkParts body) :
    part.text.length ≤ body.length := by
  unfold linkParts at h
  split at h
  · rcases List.mem_cons.1 h with rfl | h
    · simp only [Part.text, List.length_take]
      omega
    · obtain ⟨parameter, hp, rfl⟩ := List.mem_map.1 h
      exact Nat.le_trans (length_assignedValue_le parameter)
        (Nat.le_trans (length_le_of_mem_splitParameters hp) (length_bracketed_le _ _))
  · simp_all [Part.text]

theorem length_le_of_mem_fragmentParts {body : List Char} {part : Part}
    (h : part ∈ fragmentParts body) : part.text.length ≤ body.length := by
  unfold fragmentParts at h
  split at h
  · rcases List.mem_cons.1 h with rfl | h
    · simp only [Part.text, List.length_take]
      omega
    · exact Nat.le_trans (length_le_of_mem_linkParts h) (by simp)
  · simp_all [Part.text]

theorem length_le_of_mem_messageParts {body : List Char} {part : Part}
    (h : part ∈ messageParts body) : part.text.length ≤ body.length := by
  rcases List.mem_append.1 h with h | h
  · have : part.text = messageKey body := by
      unfold keyParts at h
      split at h
      · simp_all [Part.text]
      · split at h <;> simp_all [Part.text]
    exact this ▸ length_messageKey_le body
  · split at h
    · obtain ⟨argument, ha, h⟩ := List.mem_flatMap.1 h
      have : part.text = argument := by
        unfold argumentParts at h
        split at h
        · simp_all [Part.text]
        · split at h <;> simp_all [Part.text]
      exact this ▸ Nat.le_trans (length_le_of_mem_splitParameters ha) (length_bracketed_le _ _)
    · simp at h

/-- Every part is shorter than the expression. -/
theorem length_lt_of_mem_parts {expression : List Char} {part : Part}
    (h : part ∈ parts expression) : part.text.length < expression.length := by
  cases expression with
  | nil => simp [parts] at h
  | cons sigil rest =>
    have inner : (innerText (sigil :: rest)).length < (sigil :: rest).length := by
      simp [innerText]
      omega
    refine Nat.lt_of_le_of_lt ?_ inner
    simp only [parts] at h
    split at h
    · simp_all [Part.text]
    · split at h
      · exact length_le_of_mem_messageParts h
      · split at h
        · exact length_le_of_mem_linkParts h
        · split at h
          · exact length_le_of_mem_fragmentParts h
          · simp at h

/-! ## Expressions -/

/-- The paths that an expression reads, in the order of reading. An expression
    inside another is reported under its own text. -/
def expressionMatches (expression : List Char) : List Match :=
  (parts expression).attach.flatMap fun
    | ⟨.key key, _⟩ => [⟨expression, key⟩]
    | ⟨.plain text, _⟩ =>
      (expressionSpans text).flatMap fun span => expressionMatches (span.slice text)
    | ⟨.body text, _⟩ =>
      (visits text).attach.flatMap fun
        | ⟨.chain _ chain, _⟩ => chain.paths.map fun path => ⟨expression, path⟩
        | ⟨.nested _ inner, _⟩ => expressionMatches inner
termination_by expression.length
decreasing_by
  · rename_i h
    have := length_lt_of_mem_parts h
    simp only [Part.text, Span.slice, List.length_take, List.length_drop] at this ⊢
    omega
  · rename_i h _ hv
    have := length_lt_of_mem_parts h
    have := length_le_of_mem_visits hv
    simp only [Part.text] at *
    omega

/-- The paths that the complete expressions of a text read. -/
def textMatches (text : List Char) : List Match :=
  (expressionSpans text).flatMap fun span => expressionMatches (span.slice text)

/-! ## Templates -/

/-- The paths that the value of an attribute reads when it is taken on its own. -/
def attributeMatches (attr : Attribute) : List Match :=
  if assignmentAttributes.contains (String.ofList attr.name) then
    (splitParameters attr.value).flatMap fun assignment =>
      textMatches (assignedValue assignment)
  else textMatches attr.value

/-- Everything a template reads, each path once for every expression that reads
    it: first what the text as a whole shows, then what the attributes show on
    their own. Escaped expressions are no expressions. -/
def templateMatches (text : List Char) : List Match :=
  let visible := stripEscaped text
  (textMatches visible ++
    (attributesNamed scannedAttributes visible).flatMap attributeMatches).eraseDups

end TemplateAnalysis.Variable
