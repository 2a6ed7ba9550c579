import TemplateAnalysis.Proofs.Expression.Parameters
import TemplateAnalysis.Variable.Match

/-! # Where parts stand

    An expression is taken apart at signs: brackets, colons, commas and the sign
    of an assignment.

    * **`delimited_of_mem_parts`**: a sign is in no word, so no word goes on
      beyond a part of a complete expression;
    * **`held_linkSpans`**, **`held_fragmentSpans`**: the parts of a link or a
      fragment expression, span by span.
-/

namespace TemplateAnalysis.Expression

open Text

variable {token text cs : List Char} {start stop i : Nat}

/-! ## Cuts -/

theorem prefix_of_topLevelOffset {s : Nesting} {window k : Nat}
    (h : topLevelOffset token s window cs = some k) : token <+: cs.drop k := by
  induction cs generalizing s window k with
  | nil => cases window <;> simp [topLevelOffset] at h
  | cons c rest ih =>
    cases window with
    | zero => simp [topLevelOffset] at h
    | succ window =>
      rw [topLevelOffset] at h
      split at h
      · rename_i hhere
        simp only [Bool.and_eq_true] at hhere
        obtain rfl := Option.some.inj h
        exact List.isPrefixOf_iff_prefix.1 hhere.1.2
      · obtain ⟨j, hj, rfl⟩ := Option.map_eq_some_iff.1 h
        exact ih hj

/-- A text is cut where the token stands. -/
theorem exists_of_findTopLevelIn (h : findTopLevelIn token text start stop = some i) :
    ∃ before after, text = before ++ (token ++ after) ∧ i = before.length := by
  obtain ⟨k, hk, rfl⟩ := Option.map_eq_some_iff.1 h
  have hlt := (topLevelOffset_lt hk).2
  rw [List.length_drop] at hlt
  obtain ⟨after, hafter⟩ := prefix_of_topLevelOffset hk
  rw [List.drop_drop, Nat.add_comm start] at hafter
  refine ⟨text.take (k + start), after, ?_, ?_⟩
  · rw [hafter, List.take_append_drop]
  · rw [List.length_take]
    omega

theorem delimited_take (hword : token.any isWordChar = false) (hne : token ≠ [])
    (h : findTopLevelIn token text start stop = some i) : Delimited (text.take i) text := by
  obtain ⟨before, after, rfl, rfl⟩ := exists_of_findTopLevelIn h
  rw [List.take_left]
  refine ⟨[], token ++ after, rfl, rfl, ?_⟩
  rw [startsWithWord_append_of_ne_nil hne]
  exact startsWithWord_of_any hword

theorem delimited_drop (hword : token.any isWordChar = false) (hne : token ≠ [])
    (h : findTopLevelIn token text start stop = some i) :
    Delimited (text.drop (i + token.length)) text := by
  obtain ⟨before, after, rfl, rfl⟩ := exists_of_findTopLevelIn h
  rw [← List.append_assoc, ← List.length_append, List.drop_left]
  refine ⟨before ++ token, [], by rw [List.append_nil], ?_, rfl⟩
  rw [endsInWord_append_of_ne_nil hne]
  exact endsInWord_of_any hword

/-- The sign of an assignment stands outside quotes and brackets, at least as
    they look from where the reading has last started. -/
theorem exists_findTopLevelIn_of_findAssignmentFrom (h : findAssignmentFrom text start = some i) :
    ∃ begin, findTopLevelIn ['='] text begin text.length = some i := by
  fun_induction findAssignmentFrom text start with
  | case1 => contradiction
  | case2 start j hj before hsign =>
    obtain rfl := Option.some.inj h
    exact ⟨start, hj⟩
  | case3 start j hj before hsign ih => exact ih h

theorem delimited_assignedValue (parameter : List Char) :
    Delimited (assignedValue parameter) parameter := by
  unfold assignedValue
  split
  · rename_i i hi
    obtain ⟨begin, hbegin⟩ := exists_findTopLevelIn_of_findAssignmentFrom hi
    exact delimited_drop (by decide) (by simp) hbegin
  · exact .refl parameter

end TemplateAnalysis.Expression

namespace TemplateAnalysis.Variable

open Text Expression

variable {text body expression : List Char} {part : Part} {paren : Nat}

/-! ## Brackets -/

/-- What stands in brackets goes to the closing bracket or to the end. -/
theorem exists_eq_bracketed {rest : List Char} (h : text.drop paren = '(' :: rest) :
    ∃ after, rest = bracketed text paren ++ after ∧ startsWithWord after = false := by
  have hrest : text.drop (paren + 1) = rest := by rw [← List.drop_drop, h]; rfl
  have hclosing : findClosing text paren =
      (closingOffset '(' ')' .outside 1 rest).map (paren + 1 + ·) :=
    findClosing_of_opened .round h
  unfold bracketed
  rw [hclosing]
  cases hk : closingOffset '(' ')' .outside 1 rest with
  | none => exact ⟨[], by simp [hrest], rfl⟩
  | some k =>
    refine ⟨rest.drop k, ?_, ?_⟩
    · have hlen : paren + 1 + k - (paren + 1) = k := by omega
      simp only [Option.map_some, List.extract_eq_take_drop, hrest, hlen,
        List.take_append_drop]
    · obtain ⟨hlt, hcloser⟩ := List.getElem?_eq_some_iff.1 (getElem?_closingOffset hk)
      rw [List.drop_eq_getElem_cons hlt, hcloser]
      exact (by decide : isWordChar ')' = false)

theorem exists_bracketed (h : findTopLevel ['('] text = some paren) :
    ∃ before after, text = before ++ '(' :: (bracketed text paren ++ after) ∧
      paren = before.length ∧ startsWithWord after = false := by
  obtain ⟨before, rest, htext, hparen⟩ := exists_of_findTopLevelIn h
  have hdrop : text.drop paren = '(' :: rest := by
    rw [htext, hparen, List.drop_left]
    rfl
  obtain ⟨after, hrest, hafter⟩ := exists_eq_bracketed hdrop
  refine ⟨before, after, ?_, hparen, hafter⟩
  rw [← hrest]
  exact htext

theorem delimited_bracketed (h : findTopLevel ['('] text = some paren) :
    Delimited (bracketed text paren) text := by
  obtain ⟨before, after, htext, -, hafter⟩ := exists_bracketed h
  refine ⟨before ++ ['('], after, ?_, by rw [endsInWord_concat]; decide, hafter⟩
  rw [List.append_assoc]
  exact htext

/-! ## Parts are set apart -/

theorem delimited_of_mem_linkParts (h : part ∈ linkParts body) : Delimited part.text body := by
  unfold linkParts at h
  split at h
  · rename_i paren hparen
    rcases List.mem_cons.1 h with rfl | h
    · exact delimited_take (by decide) (by simp) hparen
    · obtain ⟨parameter, hp, rfl⟩ := List.mem_map.1 h
      exact (delimited_assignedValue parameter).trans
        ((delimited_of_mem_splitParameters hp).trans (delimited_bracketed hparen))
  · obtain rfl := List.mem_singleton.1 h
    exact .refl body

theorem delimited_of_mem_fragmentParts (h : part ∈ fragmentParts body) :
    Delimited part.text body := by
  unfold fragmentParts at h
  split at h
  · rename_i separator hseparator
    rcases List.mem_cons.1 h with rfl | h
    · exact delimited_take (by decide) (by simp) hseparator
    · exact (delimited_of_mem_linkParts h).trans (delimited_drop (by decide) (by simp) hseparator)
  · obtain rfl := List.mem_singleton.1 h
    exact .refl body

theorem delimited_messageKey (body : List Char) : Delimited (messageKey body) body := by
  unfold messageKey
  split
  · rename_i paren hparen
    exact (delimited_trim _).trans (delimited_take (by decide) (by simp) hparen)
  · exact delimited_trim body

theorem delimited_of_mem_messageParts (h : part ∈ messageParts body) :
    Delimited part.text body := by
  rcases List.mem_append.1 h with h | h
  · have htext : part.text = messageKey body := by
      unfold keyParts at h
      grind [Part.text]
    exact htext ▸ delimited_messageKey body
  · split at h
    · rename_i paren hparen
      obtain ⟨argument, ha, h⟩ := List.mem_flatMap.1 h
      have htext : part.text = argument := by
        unfold argumentParts at h
        grind [Part.text]
      exact htext ▸ (delimited_of_mem_splitParameters ha).trans (delimited_bracketed hparen)
    · simp at h

/-- A complete expression is a sigil and its body between two braces. -/
theorem eq_of_isExpression (h : IsExpression expression) :
    ∃ sigil, isSigil sigil = true ∧
      expression = sigil :: '{' :: (innerText expression ++ ['}']) := by
  obtain ⟨⟨sigil, rest, rfl, hs⟩, hcloses⟩ := h
  obtain ⟨k, hk, hlast⟩ := Option.map_eq_some_iff.1 hcloses
  have hcloser := getElem?_closingOffset hk
  obtain rfl : k = rest.length := by
    simp only [List.length_cons] at hlast
    omega
  -- The closing brace is the last character, and it is not the opening one.
  have hend : ('{' :: rest).getLast? = some '}' := by
    rw [List.getLast?_eq_getElem?]
    exact hcloser
  cases rest with
  | nil => contradiction
  | cons c more =>
    rw [List.getLast?_cons_cons] at hend
    obtain ⟨inner, hinner⟩ := List.getLast?_eq_some_iff.1 hend
    refine ⟨sigil, hs, ?_⟩
    rw [hinner]
    simp [innerText]

/-- **Parts are set apart**: no word goes on beyond a part of an expression. -/
theorem delimited_of_mem_parts (he : IsExpression expression) (h : part ∈ parts expression) :
    Delimited part.text expression := by
  obtain ⟨sigil, -, heq⟩ := eq_of_isExpression he
  have hbody : Delimited (innerText expression) expression :=
    ⟨[sigil, '{'], ['}'], heq, (by decide : isWordChar '{' = false),
      (by decide : isWordChar '}' = false)⟩
  refine Delimited.trans ?_ hbody
  rw [heq] at h
  simp only [parts] at h
  rw [← heq] at h
  split at h
  · obtain rfl := List.mem_singleton.1 h
    exact .refl _
  · split at h
    · exact delimited_of_mem_messageParts h
    · split at h
      · exact delimited_of_mem_linkParts h
      · split at h
        · exact delimited_of_mem_fragmentParts h
        · simp at h

/-! ## Links and fragment expressions -/

/-- Of a link only the embedded expressions count. -/
theorem exists_plain_of_mem_linkParts (h : part ∈ linkParts body) : ∃ text, part = .plain text := by
  unfold linkParts at h
  grind

/-- So it is with fragment expressions. -/
theorem exists_plain_of_mem_fragmentParts (h : part ∈ fragmentParts body) :
    ∃ text, part = .plain text := by
  unfold fragmentParts at h
  grind [exists_plain_of_mem_linkParts]

/-- The span in a text that has `front` more characters in front. -/
def shift (front : Nat) (span : Span) : Span :=
  ⟨front + span.start, front + span.stop⟩

theorem held_shift {before whole after piece : List Char} {span : Span}
    (htext : text = before ++ (whole ++ after)) (h : Held whole span piece) :
    Held text (shift before.length span) piece := by
  obtain ⟨front, back, rfl, rfl⟩ := h
  refine ⟨before ++ front, back ++ after, ?_, ?_⟩
  · rw [htext]
    simp only [List.append_assoc]
  · simp only [shift, List.length_append, Nat.add_assoc]

/-- The stretches of the body of a link that are read: the path, and the values
    of its parameters. -/
def linkSpans (body : List Char) : List Span :=
  match findTopLevel ['('] body with
  | some paren => ⟨0, paren⟩ :: (valueSpans (bracketed body paren)).map (shift (paren + 1))
  | none => [⟨0, body.length⟩]

/-- The stretches of the body of a fragment expression that are read: the
    template, and those of the selector. -/
def fragmentSpans (body : List Char) : List Span :=
  match findTopLevel [':', ':'] body with
  | some separator =>
    ⟨0, separator⟩ :: (linkSpans (body.drop (separator + 2))).map (shift (separator + 2))
  | none => [⟨0, body.length⟩]

theorem held_whole (cs : List Char) : Held cs ⟨0, cs.length⟩ cs :=
  ⟨[], [], by simp, by simp⟩

theorem held_take {token : List Char} {start stop i : Nat}
    (h : findTopLevelIn token text start stop = some i) : Held text ⟨0, i⟩ (text.take i) := by
  obtain ⟨before, after, rfl, rfl⟩ := exists_of_findTopLevelIn h
  rw [List.take_left]
  exact ⟨[], token ++ after, rfl, by simp⟩

/-- The span holds a part of which only the embedded expressions count. -/
def HeldPlain (body : List Char) (span : Span) (part : Part) : Prop :=
  ∃ piece, part = .plain piece ∧ Held body span piece

/-- **The spans of a link** are those of its parts. -/
theorem held_linkSpans (body : List Char) :
    List.Forall₂ (HeldPlain body) (linkSpans body) (linkParts body) := by
  unfold linkSpans linkParts
  cases hparen : findTopLevel ['('] body with
  | none => exact .cons ⟨body, rfl, held_whole body⟩ .nil
  | some paren =>
    refine .cons ⟨_, rfl, held_take hparen⟩ ?_
    have values := held_valueSpans (bracketed body paren)
    rw [List.forall₂_map_right_iff] at values
    rw [List.forall₂_map_left_iff, List.forall₂_map_right_iff]
    refine values.imp ?_
    intro value parameter hvalue
    refine ⟨_, rfl, ?_⟩
    -- The brackets have the path and the opening bracket in front of them.
    obtain ⟨before, after, hbody, hbefore, -⟩ := exists_bracketed hparen
    have hfront : body = (before ++ ['(']) ++ (bracketed body paren ++ after) := by
      rw [List.append_assoc]
      exact hbody
    have hlen : paren + 1 = (before ++ ['(']).length := by simp [hbefore]
    rw [hlen]
    exact held_shift hfront hvalue

/-- **The spans of a fragment expression** are those of its parts. -/
theorem held_fragmentSpans (body : List Char) :
    List.Forall₂ (HeldPlain body) (fragmentSpans body) (fragmentParts body) := by
  unfold fragmentSpans fragmentParts
  cases hseparator : findTopLevel [':', ':'] body with
  | none => exact .cons ⟨body, rfl, held_whole body⟩ .nil
  | some separator =>
    refine .cons ⟨_, rfl, held_take hseparator⟩ ?_
    rw [List.forall₂_map_left_iff]
    refine (held_linkSpans _).imp ?_
    rintro span part ⟨piece, rfl, hpiece⟩
    refine ⟨piece, rfl, ?_⟩
    -- The selector has the template and the separator in front of it.
    obtain ⟨before, after, hbody, hbefore⟩ := exists_of_findTopLevelIn hseparator
    have hlen : separator + 2 = (before ++ [':', ':']).length := by simp [hbefore]
    have hfront : body = (before ++ [':', ':']) ++ (body.drop (separator + 2) ++ []) := by
      rw [hlen, hbody, ← List.append_assoc, List.drop_left, List.append_nil]
    rw [hlen] at hpiece ⊢
    exact held_shift (hlen ▸ hfront) hpiece

end TemplateAnalysis.Variable
