import TemplateAnalysis.Proofs.Expression.Window
import TemplateAnalysis.Proofs.Variable.Analysed

/-! # Stretches that are read

    Links, fragment expressions and assignment lists are read stretch by stretch:
    the path, the template, the values. What a complete expression reads is
    reported when the expression lies in such a stretch (`Shows`):

    * **`mem_templateMatches_of_mem_readSpans`**: for the body of a link or a
      fragment expression;
    * **`notMem_templateMatches_iff`**: what an attribute reads is lost only when its
      value is an assignment list that does not show it, and an expression of the
      text reaches into the value or out of it.

    The names in front of the values are not read, whatever is embedded in them.
-/

namespace TemplateAnalysis.Variable

open Text Expression Markup

variable {text cs expression : List Char} {stretch span : Span} {m : Match}

/-! ## Expressions in a stretch -/

/-- The stretch holds the expression at the span, and it begins inside of no
    complete expression of the text. -/
structure Shows (text : List Char) (stretch span : Span) : Prop where
  start_le : stretch.start ≤ span.start
  stop_le : span.stop ≤ stretch.stop
  apart : ∀ other ∈ expressionSpans text,
    ¬(other.start < stretch.start ∧ stretch.start < other.stop)

theorem slice_slice (hstart : stretch.start ≤ span.start) (hstop : span.stop ≤ stretch.stop) :
    Span.slice ⟨span.start - stretch.start, span.stop - stretch.start⟩ (stretch.slice cs) =
      span.slice cs := by
  simp only [Span.slice, List.extract_eq_take_drop, List.drop_take, List.take_take,
    List.drop_drop]
  rw [Nat.add_sub_cancel' hstart, Nat.min_eq_left (by omega)]
  congr 1
  omega

/-- What an expression reads is read by every stretch that shows it. -/
theorem mem_textMatches_slice (hspan : span ∈ expressionSpans cs) (hshows : Shows cs stretch span)
    (hm : m ∈ expressionMatches (span.slice cs)) : m ∈ textMatches (stretch.slice cs) := by
  have hinner := mem_expressionSpans_slice hspan hshows.start_le hshows.stop_le hshows.apart
  refine List.mem_flatMap.2 ⟨_, hinner, ?_⟩
  rwa [slice_slice hshows.start_le hshows.stop_le]

theorem exists_mem_of_forall₂ {α β : Type} {R : α → β → Prop} {as : List α} {bs : List β}
    (h : List.Forall₂ R as bs) {a : α} (ha : a ∈ as) : ∃ b ∈ bs, R a b := by
  induction h with
  | nil => simp at ha
  | cons hr _ ih =>
    rcases List.mem_cons.1 ha with rfl | ha
    · exact ⟨_, List.mem_cons_self, hr⟩
    · obtain ⟨b, hb, hr⟩ := ih ha
      exact ⟨b, List.mem_cons_of_mem _ hb, hr⟩

/-! ## Links and fragment expressions -/

/-- The stretches of the body of an expression of which only the embedded
    expressions count. -/
def readSpans : List Char → List Span
  | [] => []
  | sigil :: rest =>
    if sigil == '@' then linkSpans (innerText (sigil :: rest))
    else if sigil == '~' then fragmentSpans (innerText (sigil :: rest))
    else []

theorem plain_mem_parts (h : stretch ∈ readSpans expression) :
    .plain (stretch.slice (innerText expression)) ∈ parts expression := by
  cases expression with
  | nil => simp [readSpans] at h
  | cons sigil rest =>
    have held : ∀ {spans : List Span} {read : List Part},
        List.Forall₂ (HeldPlain (innerText (sigil :: rest))) spans read → stretch ∈ spans →
          .plain (stretch.slice (innerText (sigil :: rest))) ∈ read := by
      intro spans read hread hmem
      obtain ⟨part, hpart, piece, rfl, hheld⟩ := exists_mem_of_forall₂ hread hmem
      rwa [hheld.slice_eq]
    rw [readSpans] at h
    split at h
    · rename_i hsigil
      obtain rfl : sigil = '@' := by simpa using hsigil
      exact held (held_linkSpans _) h
    · split at h
      · rename_i hsigil
        obtain rfl : sigil = '~' := by simpa using hsigil
        exact held (held_fragmentSpans _) h
      · simp at h

/-- **What is shown in a link is reported**, and so it is in a fragment
    expression: whatever a complete expression of the body reads, when one of the
    stretches that are read shows it. -/
theorem mem_templateMatches_of_mem_readSpans (h : Analysed text expression)
    (hstretch : stretch ∈ readSpans expression)
    (hspan : span ∈ expressionSpans (innerText expression))
    (hshows : Shows (innerText expression) stretch span)
    (hm : m ∈ expressionMatches (span.slice (innerText expression))) :
    m ∈ templateMatches text := by
  refine mem_templateMatches_of_analysed h ?_
  rw [expressionMatches_eq]
  exact List.mem_flatMap.2 ⟨_, plain_mem_parts hstretch, mem_textMatches_slice hspan hshows hm⟩

/-- Where a stretch begins inside of an expression, the rest of that expression
    can look like the start of another that hides what follows: the body of this
    link reads `a` and `w`, and neither is reported. -/
example : templateMatches "@\x7b/p($\x7ba],'$\x7b'\x7d${w}'\x7d')\x7d".toList = [] := by
  decide +kernel

/-- A text that is one complete expression is analysed as a whole. -/
theorem analysed_whole (hvisible : stripEscaped text = text)
    (hwhole : ⟨0, text.length⟩ ∈ expressionSpans text) : Analysed text text := by
  have hscanned : text ∈ scannedTexts text := by
    rw [scannedTexts, hvisible]
    exact List.mem_cons_self
  have hanalysed := Analysed.scanned hscanned hwhole
  rwa [slice_whole] at hanalysed

/-- A link with a parameter. -/
def parameterSample : List Char :=
  "@{/a(x=${y})}".toList

theorem mem_templateMatches_parameterSample :
    (⟨"${y}".toList, "y".toList⟩ : Match) ∈ templateMatches parameterSample := by
  have hanalysed : Analysed parameterSample parameterSample :=
    analysed_whole (by decide +kernel) (by decide +kernel)
  have hstretch : ⟨5, 9⟩ ∈ readSpans parameterSample := by decide +kernel
  have hspan : ⟨5, 9⟩ ∈ expressionSpans (innerText parameterSample) := by decide +kernel
  have hshows : Shows (innerText parameterSample) ⟨5, 9⟩ ⟨5, 9⟩ :=
    ⟨Nat.le_refl _, Nat.le_refl _, by decide +kernel⟩
  exact mem_templateMatches_of_mem_readSpans hanalysed hstretch hspan hshows (by decide +kernel)

/-- A link with an expression in the name of a parameter. -/
def namedSample : List Char :=
  "@{/a(${n}=1)}".toList

/-- Not all that the body of a link reads is reported: names are left out. -/
theorem not_forall_mem_templateMatches_of_body :
    ¬∀ (text expression : List Char), Analysed text expression →
      (expression.head? = some '@' ∨ expression.head? = some '~') →
        ∀ m ∈ textMatches (innerText expression), m ∈ templateMatches text := by
  intro h
  have hanalysed : Analysed namedSample namedSample :=
    analysed_whole (by decide +kernel) (by decide +kernel)
  have hm : (⟨"${n}".toList, "n".toList⟩ : Match) ∈ templateMatches namedSample :=
    h namedSample namedSample hanalysed (.inl rfl) _ (by decide +kernel)
  revert hm
  decide +kernel

/-! ## Attributes -/

/-- What is reported is read by the text as a whole, or by an attribute on its own. -/
theorem mem_templateMatches_iff_or : m ∈ templateMatches text ↔
    m ∈ textMatches (stripEscaped text) ∨
      ∃ attr ∈ attributesNamed scannedAttributes (stripEscaped text),
        m ∈ attributeMatches attr := by
  simp only [templateMatches, List.mem_eraseDups, List.mem_append, List.mem_flatMap]

section

variable {attr : Attribute}

/-- Of a list of assignments, what their values show is read. -/
theorem mem_attributeMatches_of_shows
    (hassignments : assignmentAttributes.contains (String.ofList attr.name) = true)
    (hspan : span ∈ expressionSpans attr.value) (hstretch : stretch ∈ valueSpans attr.value)
    (hshows : Shows attr.value stretch span)
    (hm : m ∈ expressionMatches (span.slice attr.value)) : m ∈ attributeMatches attr := by
  obtain ⟨value, hvalue, hheld⟩ := exists_mem_of_forall₂ (held_valueSpans attr.value) hstretch
  obtain ⟨assignment, hassignment, rfl⟩ := List.mem_map.1 hvalue
  unfold attributeMatches
  rw [if_pos hassignments]
  refine List.mem_flatMap.2 ⟨assignment, hassignment, ?_⟩
  rw [← hheld.slice_eq]
  exact mem_textMatches_slice hspan hshows hm

/-- The value stands where the attribute says. -/
theorem slice_of_mem_attributesNamed {names : List String} (h : attr ∈ attributesNamed names cs) :
    Span.slice ⟨attr.start, attr.stop⟩ cs = attr.value := by
  obtain ⟨outer, -, -, hwritten⟩ :=
    @exists_written_of_mem_attributesFrom _ _ false [] cs attr rfl rfl h
  obtain ⟨sign, quote, rest, -, -, hstart, hcs⟩ := hwritten.spelled
  have hfront : cs = (outer ++ attr.name ++ sign.print ++ [quote]) ++
      (attr.value ++ quote :: rest) := by
    rw [List.nil_append] at hcs
    rw [hcs]
    simp
  have hlength : attr.start = (outer ++ attr.name ++ sign.print ++ [quote]).length := by
    simp only [List.length_append, List.length_singleton]
    omega
  rw [Span.slice, List.extract_eq_take_drop, hfront, Attribute.stop, Nat.add_sub_cancel_left,
    hlength, List.drop_left, List.take_left]

/-- What the value of an attribute reads is read by the text as a whole, unless an
    expression of the text reaches across an end of the value. -/
theorem mem_textMatches_of_value {names : List String} (h : attr ∈ attributesNamed names cs)
    (hspan : span ∈ expressionSpans attr.value)
    (hm : m ∈ expressionMatches (span.slice attr.value))
    (hapart : ∀ other ∈ expressionSpans cs,
      ¬ other.Crosses attr.start ∧ ¬ other.Crosses attr.stop) :
    m ∈ textMatches cs := by
  have hvalue := slice_of_mem_attributesNamed h
  have hin : ⟨attr.start + span.start, attr.start + span.stop⟩ ∈
      expressionSpansIn cs attr.start attr.stop := by
    rw [expressionSpansIn_eq, hvalue]
    exact List.mem_map.2 ⟨span, hspan, rfl⟩
  have hwhole := mem_expressionSpans_of_mem_in hin (fun other ho => (hapart other ho).1)
    fun other ho => (hapart other ho).2
  -- In the text it is the same expression as in the value.
  have hstop := ((scans_spansFrom cs attr.stop attr.start).complete _ hin).2
  have hslice := @slice_slice cs ⟨attr.start, attr.stop⟩
    ⟨attr.start + span.start, attr.start + span.stop⟩ (Nat.le_add_right _ _) hstop
  simp only [hvalue, Nat.add_sub_cancel_left] at hslice
  refine List.mem_flatMap.2 ⟨_, hwhole, ?_⟩
  rwa [← hslice]

/-- **What is lost of an attribute**: what an expression of its value reads is left out
    exactly when the value is a list of assignments, and neither the text as a whole
    reads it nor an attribute on its own. Then no value of an assignment shows it, and
    an expression of the text reaches across an end of the value. -/
theorem notMem_templateMatches_iff
    (h : attr ∈ attributesNamed scannedAttributes (stripEscaped text))
    (hspan : span ∈ expressionSpans attr.value)
    (hm : m ∈ expressionMatches (span.slice attr.value)) :
    (m ∉ templateMatches text ↔
      assignmentAttributes.contains (String.ofList attr.name) = true ∧
        m ∉ textMatches (stripEscaped text) ∧
        ∀ other ∈ attributesNamed scannedAttributes (stripEscaped text),
          m ∉ attributeMatches other) ∧
    (m ∉ templateMatches text →
      (∀ stretch ∈ valueSpans attr.value, ¬ Shows attr.value stretch span) ∧
      ∃ other ∈ expressionSpans (stripEscaped text),
        other.Crosses attr.start ∨ other.Crosses attr.stop) := by
  have hassignments : m ∉ templateMatches text →
      assignmentAttributes.contains (String.ofList attr.name) = true := by
    intro hlost
    by_contra hplain
    refine hlost (mem_templateMatches_iff_or.2 (.inr ⟨attr, h, ?_⟩))
    unfold attributeMatches
    rw [if_neg hplain]
    exact List.mem_flatMap.2 ⟨span, hspan, hm⟩
  refine ⟨⟨fun hlost => ?_, fun ⟨_, htext, hattributes⟩ hfound => ?_⟩, fun hlost => ⟨?_, ?_⟩⟩
  · refine ⟨hassignments hlost, fun htext => ?_, fun other hother hattribute => ?_⟩
    · exact hlost (mem_templateMatches_iff_or.2 (.inl htext))
    · exact hlost (mem_templateMatches_iff_or.2 (.inr ⟨other, hother, hattribute⟩))
  · rcases mem_templateMatches_iff_or.1 hfound with hshown | ⟨other, hother, hattribute⟩
    · exact htext hshown
    · exact hattributes other hother hattribute
  · intro stretch hstretch hshows
    have hread := mem_attributeMatches_of_shows (hassignments hlost) hspan hstretch hshows hm
    exact hlost (mem_templateMatches_iff_or.2 (.inr ⟨attr, h, hread⟩))
  · by_contra hapart
    refine hlost (mem_templateMatches_iff_or.2 (.inl (mem_textMatches_of_value h hspan hm ?_)))
    intro other hother
    exact ⟨fun hcross => hapart ⟨other, hother, .inl hcross⟩,
      fun hcross => hapart ⟨other, hother, .inr hcross⟩⟩

end

/-- An attribute with an expression in the name of an assignment, behind a literal
    that is closed only further on. -/
def derailedSample : List Char :=
  "<p th:text=\"$\x7bit's\x7d\" th:attr=\"${n}=${v}\" title='\x7d'>".toList

/-- The text as a whole does not show what the name of the assignment reads. -/
theorem notMem_templateMatches_derailedSample :
    (⟨"${n}".toList, "n".toList⟩ : Match) ∈ textMatches "${n}=${v}".toList ∧
      ⟨"${n}".toList, "n".toList⟩ ∉ templateMatches derailedSample := by
  refine ⟨by decide +kernel, ?_⟩
  have hattr : ⟨"th:attr".toList, 30, "${n}=${v}".toList⟩ ∈
      attributesNamed scannedAttributes (stripEscaped derailedSample) := by decide +kernel
  have hspan : ⟨0, 4⟩ ∈ expressionSpans "${n}=${v}".toList := by decide +kernel
  exact (notMem_templateMatches_iff hattr hspan (by decide +kernel)).1.2
    ⟨by decide +kernel, by decide +kernel, by decide +kernel⟩

end TemplateAnalysis.Variable
