import TemplateAnalysis.Proofs.Variable.Extraction
import TemplateAnalysis.Variable.Occurrence

/-! # What is analysed

    A template is scanned as a whole, and the values of some attributes are
    scanned on their own. Every complete expression that a scan finds is analysed,
    and so is everything embedded in an expression that is analysed (`Analysed`).

    * **`mem_templateMatches_iff`**: what is reported is what the analysed
      expressions read themselves, each under its own text;
    * **`Analysed.isExpression`**: whatever is analysed is a complete expression and
      stands in the text as it is;
    * **`occurrences_pointAt`**: so nothing that is reported is lost when the
      positions are looked up.
-/

namespace TemplateAnalysis.Variable

open Text Expression Markup

variable {text expression inner outer : List Char} {m : Match}

/-! ## One expression -/

/-- The expressions embedded in a part. -/
def Part.embedded : Part → List (List Char)
  | .key _ => []
  | .plain text => (expressionSpans text).map fun span => span.slice text
  | .body text => (visits text).filterMap fun
    | .nested _ inner => some inner
    | .chain _ _ => none

/-- The expressions embedded in an expression. -/
def embedded (expression : List Char) : List (List Char) :=
  (parts expression).flatMap Part.embedded

/-- The paths that a part reads for the expression around it. -/
def Part.ownMatches (expression : List Char) : Part → List Match
  | .key path => [⟨expression, path⟩]
  | .plain _ => []
  | .body text => (visits text).flatMap fun
    | .chain _ chain => chain.paths.map (Match.mk expression)
    | .nested _ _ => []

/-- The paths that an expression reads itself. -/
def ownMatches (expression : List Char) : List Match :=
  (parts expression).flatMap (Part.ownMatches expression)

theorem source_of_mem_ownMatches (h : m ∈ ownMatches expression) : m.source = expression := by
  obtain ⟨part, -, h⟩ := List.mem_flatMap.1 h
  cases part with
  | key key =>
    obtain rfl := List.mem_singleton.1 h
    rfl
  | plain text => simp [Part.ownMatches] at h
  | body text =>
    obtain ⟨visit, -, h⟩ := List.mem_flatMap.1 h
    cases visit with
    | chain i chain =>
      obtain ⟨path, -, rfl⟩ := List.mem_map.1 h
      rfl
    | nested i inner => simp at h

/-- An expression reads what it reads itself and what is embedded in it reads. -/
theorem mem_expressionMatches_iff :
    m ∈ expressionMatches expression ↔
      m ∈ ownMatches expression ∨ ∃ inner ∈ embedded expression, m ∈ expressionMatches inner := by
  have part : ∀ part, m ∈ partMatches expression part ↔
      m ∈ part.ownMatches expression ∨ ∃ inner ∈ part.embedded, m ∈ expressionMatches inner := by
    intro part
    cases part with
    | key key => simp [partMatches, Part.ownMatches, Part.embedded]
    | plain text => simp [partMatches, Part.ownMatches, Part.embedded, textMatches]
    | body text =>
      simp only [partMatches, Part.ownMatches, Part.embedded, List.mem_flatMap,
        List.mem_filterMap]
      constructor
      · rintro ⟨visit, hv, hm⟩
        cases visit with
        | chain i chain => exact .inl ⟨_, hv, hm⟩
        | nested i inner => exact .inr ⟨inner, ⟨_, hv, rfl⟩, hm⟩
      · rintro (⟨visit, hv, hm⟩ | ⟨inner, ⟨visit, hv, hinner⟩, hm⟩)
        · cases visit with
          | chain i chain => exact ⟨_, hv, hm⟩
          | nested i inner => simp at hm
        · cases visit with
          | chain i chain => simp at hinner
          | nested i text =>
            obtain rfl := Option.some.inj hinner
            exact ⟨_, hv, hm⟩
  rw [expressionMatches_eq, ownMatches, embedded]
  simp only [List.mem_flatMap, part]
  grind

/-! ## What is embedded -/

theorem infix_slice (span : Span) (cs : List Char) : span.slice cs <:+: cs := by
  rw [Span.slice, List.extract_eq_take_drop]
  exact (List.take_prefix _ _).isInfix.trans (List.drop_suffix _ _).isInfix

/-- The nested expressions of a body are tokens of it. -/
theorem exists_token_of_mem_embedded {body : List Char}
    (h : inner ∈ (Part.body body).embedded) :
    ∃ t ∈ tokenize body, t.kind = .nested ∧ t.text = inner := by
  obtain ⟨visit, hv, hinner⟩ := List.mem_filterMap.1 h
  cases visit with
  | chain i chain => contradiction
  | nested i text =>
    obtain rfl := Option.some.inj hinner
    obtain ⟨t, ht, hkind, htext⟩ := token_of_nested_mem_walk hv
    exact ⟨t, List.mem_of_getElem? ht, hkind, htext⟩

/-- What is embedded in a part is a complete expression in it. -/
theorem isExpression_of_mem_part {part : Part} (h : inner ∈ part.embedded) :
    IsExpression inner ∧ inner <:+: part.text := by
  cases part with
  | key path => simp [Part.embedded] at h
  | plain text =>
    obtain ⟨span, hspan, rfl⟩ := List.mem_map.1 h
    exact ⟨isExpression_slice hspan, infix_slice span text⟩
  | body text =>
    obtain ⟨t, ht, hk, rfl⟩ := exists_token_of_mem_embedded h
    exact ⟨isExpression_of_mem_tokenize ht hk, infix_of_mem_tokenize ht⟩

theorem length_lt_of_mem_embedded (h : inner ∈ embedded expression) :
    inner.length < expression.length := by
  obtain ⟨part, hpart, h⟩ := List.mem_flatMap.1 h
  exact Nat.lt_of_le_of_lt (isExpression_of_mem_part h).2.length_le (length_lt_of_mem_parts hpart)

/-! ## The whole template -/

/-- The texts that are scanned for the value of an attribute. -/
def scannedValues (attr : Attribute) : List (List Char) :=
  if assignmentAttributes.contains (String.ofList attr.name) then
    (splitParameters attr.value).map assignedValue
  else [attr.value]

/-- The texts that are scanned for a template: its own and those of attributes. -/
def scannedTexts (text : List Char) : List (List Char) :=
  stripEscaped text ::
    (attributesNamed scannedAttributes (stripEscaped text)).flatMap scannedValues

theorem mem_templateMatches :
    m ∈ templateMatches text ↔ ∃ scanned ∈ scannedTexts text, m ∈ textMatches scanned := by
  have attributes : ∀ attr : Attribute,
      attributeMatches attr = (scannedValues attr).flatMap textMatches := by
    intro attr
    unfold attributeMatches scannedValues
    split
    · rw [List.flatMap_map]
    · rw [List.flatMap_singleton]
  simp only [templateMatches, scannedTexts, List.mem_eraseDups, List.mem_append, List.mem_flatMap,
    List.mem_cons, attributes]
  grind

/-- The expressions of a template that are analysed. -/
inductive Analysed (text : List Char) : List Char → Prop
  /-- A scan finds it. -/
  | scanned {part : List Char} {span : Span} (part_mem : part ∈ scannedTexts text)
      (span_mem : span ∈ expressionSpans part) : Analysed text (span.slice part)
  /-- It is embedded in another. -/
  | embedded {outer inner : List Char} (analysed : Analysed text outer)
      (inner_mem : inner ∈ embedded outer) : Analysed text inner

/-- **Nothing that an analysed expression reads is left out.** -/
theorem mem_templateMatches_of_analysed (h : Analysed text expression)
    (hm : m ∈ expressionMatches expression) : m ∈ templateMatches text := by
  induction h with
  | scanned part_mem span_mem =>
    exact mem_templateMatches.2 ⟨_, part_mem, List.mem_flatMap.2 ⟨_, span_mem, hm⟩⟩
  | embedded _ inner_mem ih =>
    exact ih (mem_expressionMatches_iff.2 (.inr ⟨_, inner_mem, hm⟩))

theorem exists_analysed (h : Analysed text expression) (hm : m ∈ expressionMatches expression) :
    Analysed text m.source ∧ m ∈ ownMatches m.source := by
  -- What is embedded is shorter than what it stands in.
  induction hn : expression.length using Nat.strongRecOn generalizing expression with
  | ind n ih =>
    rcases mem_expressionMatches_iff.1 hm with hown | ⟨inner, hinner, hm⟩
    · rw [source_of_mem_ownMatches hown]
      exact ⟨h, hown⟩
    · exact ih _ (hn ▸ length_lt_of_mem_embedded hinner) (h.embedded hinner) hm rfl

/-- **What is reported** is what the analysed expressions read themselves. -/
theorem mem_templateMatches_iff :
    m ∈ templateMatches text ↔ Analysed text m.source ∧ m ∈ ownMatches m.source := by
  constructor
  · intro h
    obtain ⟨part, hpart, h⟩ := mem_templateMatches.1 h
    obtain ⟨span, hspan, h⟩ := List.mem_flatMap.1 h
    exact exists_analysed (.scanned hpart hspan) h
  · rintro ⟨hanalysed, hown⟩
    exact mem_templateMatches_of_analysed hanalysed (mem_expressionMatches_iff.2 (.inl hown))

/-! ## Complete and in the text -/

/-- What is scanned stands in the text. -/
theorem infix_of_mem_scannedTexts {part : List Char} (h : part ∈ scannedTexts text) :
    part <:+: stripEscaped text := by
  rcases List.mem_cons.1 h with rfl | h
  · exact List.infix_refl _
  · obtain ⟨attr, hattr, h⟩ := List.mem_flatMap.1 h
    refine List.IsInfix.trans ?_ (infix_of_mem_attributesFrom hattr)
    unfold scannedValues at h
    split at h
    · obtain ⟨assignment, ha, rfl⟩ := List.mem_map.1 h
      have hdelimited := delimited_of_mem_splitParameters ha
      exact ((delimited_assignedValue assignment).trans hdelimited).isInfix
    · obtain rfl := List.mem_singleton.1 h
      exact List.infix_refl _

/-- **What is analysed is complete, and stands in the text.** -/
theorem Analysed.isExpression (h : Analysed text expression) :
    IsExpression expression ∧ expression <:+: stripEscaped text := by
  -- An expression in a part of another is in that other, and so in the text.
  induction h with
  | scanned part_mem span_mem =>
    exact ⟨isExpression_slice span_mem,
      (infix_slice _ _).trans (infix_of_mem_scannedTexts part_mem)⟩
  | embedded _ inner_mem ih =>
    obtain ⟨part, hpart, hinner⟩ := List.mem_flatMap.1 inner_mem
    obtain ⟨hexpression, hin⟩ := isExpression_of_mem_part hinner
    exact ⟨hexpression, hin.trans ((delimited_of_mem_parts ih.1 hpart).isInfix.trans ih.2)⟩

/-! ## Positions -/

theorem occursAt_iff {token cs : List Char} {position : Nat} :
    occursAt token cs position = true ↔
      Span.slice ⟨position, position + token.length⟩ cs = token := by
  rw [occursAt, List.isPrefixOf_iff_prefix, List.prefix_iff_eq_take, Span.slice,
    List.extract_eq_take_drop, Nat.add_sub_cancel_left]
  exact eq_comm

/-- A text that stands in another has a first place there. -/
theorem exists_indexOf?_eq_some {token cs : List Char} (h : token <:+: cs) :
    ∃ start, indexOf? token cs = some start ∧ occursAt token cs start = true ∧
      ∀ earlier < start, ¬occursAt token cs earlier = true := by
  induction cs with
  | nil =>
    obtain rfl := List.infix_nil.1 h
    exact ⟨0, rfl, rfl, by simp⟩
  | cons c rest ih =>
    by_cases hhere : token.isPrefixOf (c :: rest) = true
    · exact ⟨0, by rw [indexOf?, if_pos hhere], hhere, by simp⟩
    · have hrest : token <:+: rest := by
        rcases List.infix_cons_iff.1 h with hprefix | hrest
        · exact absurd (List.isPrefixOf_iff_prefix.2 hprefix) hhere
        · exact hrest
      obtain ⟨start, hstart, hoccurs, hfirst⟩ := ih hrest
      refine ⟨start + 1, by rw [indexOf?, if_neg hhere, hstart]; rfl, hoccurs, ?_⟩
      intro earlier hearlier
      cases earlier with
      | zero => exact hhere
      | succ earlier => exact hfirst earlier (Nat.lt_of_succ_lt_succ hearlier)

theorem forall₂_filterMap {α β : Type} {R : β → α → Prop} {f : α → Option β} {entries : List α}
    (h : ∀ a ∈ entries, ∃ b, f a = some b ∧ R b a) :
    List.Forall₂ R (entries.filterMap f) entries := by
  induction entries with
  | nil => exact .nil
  | cons a rest ih =>
    obtain ⟨b, hb, hr⟩ := h a List.mem_cons_self
    rw [List.filterMap_cons_some hb]
    refine .cons hr (ih ?_)
    intro other hm
    exact h other (List.mem_cons_of_mem a hm)

/-- The occurrence is that of the match: it has the same path, and it stands where
    the text of the expression first stands. -/
structure Occurrence.PointsAt (visible : List Char) (occurrence : Occurrence) (m : Match) :
    Prop where
  path_eq : occurrence.path = m.path
  here : Span.slice ⟨occurrence.start, occurrence.start + m.source.length⟩ visible = m.source
  first : ∀ earlier < occurrence.start,
    Span.slice ⟨earlier, earlier + m.source.length⟩ visible ≠ m.source

/-- Links and fragment expressions read nothing themselves. -/
theorem isVariableSigil_of_mem_ownMatches {sigil : Char} {rest : List Char}
    (hs : isSigil sigil = true) (h : m ∈ ownMatches (sigil :: rest)) :
    sigil = '$' ∨ sigil = '*' ∨ sigil = '#' := by
  obtain ⟨part, hpart, hm⟩ := List.mem_flatMap.1 h
  have silent : ∀ text, part ≠ .plain text := by
    rintro text rfl
    simp [Part.ownMatches] at hm
  simp only [isSigil, Bool.or_eq_true, beq_iff_eq] at hs
  rcases hs with (((rfl | rfl) | rfl) | rfl) | rfl
  · exact .inl rfl
  · exact .inr (.inl rfl)
  · exact .inr (.inr rfl)
  · have hlink : part ∈ linkParts (innerText ('@' :: rest)) := hpart
    obtain ⟨text, htext⟩ := exists_plain_of_mem_linkParts hlink
    exact absurd htext (silent text)
  · have hfragment : part ∈ fragmentParts (innerText ('~' :: rest)) := hpart
    obtain ⟨text, htext⟩ := exists_plain_of_mem_fragmentParts hfragment
    exact absurd htext (silent text)

/-- **Nothing is lost, and every source is an expression**: a template has one
    occurrence for each pair that is reported, in the same order and with the same
    path, at the first place where its source stands in the visible text, and each
    source is a complete expression that reads variables. -/
theorem occurrences_pointAt (text : List Char) :
    List.Forall₂ (Occurrence.PointsAt (stripEscaped text)) (occurrences text)
        (templateMatches text) ∧
      ∀ m ∈ templateMatches text,
        (∃ sigil rest, m.source = sigil :: '{' :: rest ∧
          (sigil = '$' ∨ sigil = '*' ∨ sigil = '#')) ∧
        findClosing m.source 1 = some (m.source.length - 1) := by
  constructor
  · apply forall₂_filterMap
    intro m hm
    have hin := (mem_templateMatches_iff.1 hm).1.isExpression.2
    obtain ⟨start, hstart, hoccurs, hfirst⟩ := exists_indexOf?_eq_some hin
    rw [hstart]
    refine ⟨_, rfl, rfl, occursAt_iff.1 hoccurs, ?_⟩
    intro earlier hearlier hslice
    exact hfirst earlier hearlier (occursAt_iff.2 hslice)
  · intro m hm
    obtain ⟨hanalysed, hown⟩ := mem_templateMatches_iff.1 hm
    obtain ⟨⟨sigil, rest, hsource, hs⟩, hcloses⟩ := hanalysed.isExpression.1
    refine ⟨⟨sigil, rest, hsource, ?_⟩, hcloses⟩
    rw [hsource] at hown
    exact isVariableSigil_of_mem_ownMatches hs hown

end TemplateAnalysis.Variable
