import TemplateAnalysis.Proofs.Expression.Window
import TemplateAnalysis.Variable.Match

/-! # Escaped expressions

    An expression with a backslash in front of it is plain text. It is blanked out
    before anything is looked for:

    * **`blanks_stripEscaped`**: the reading blanks an escaped expression as a
      whole and passes over one character where none stands;
    * **`Blanks.getElem?_eq`**: so the text keeps its length, and what is blanked
      are the escaped expressions;
    * **`stripEscaped_exact`**: no escaped expression is left, and blanking again
      changes nothing, neither the text nor what is found in it.

    A blank is no part of an escape. Therefore an escape of the blanked text would
    stand in the text itself, and there it would have been blanked.
-/

namespace TemplateAnalysis.Expression

variable {text output : List Char} {position i n : Nat} {span : Span} {spans : List Span}
  {sigil : Char} {rest : List Char}

/-! ## Escapes -/

/-- A backslash stands at the position, and an expression opens behind it. -/
structure EscapesAt (text : List Char) (position : Nat) : Prop where
  backslash : text[position]? = some '\\'
  opens : OpensAt text (position + 1)

/-- The span begins with a backslash that escapes an expression. It ends right
    behind the brace that closes the expression, or behind its opening brace when
    none does. -/
structure Escaped (text : List Char) (span : Span) : Prop where
  opens : EscapesAt text span.start
  stop_eq : span.stop = match findClosing text (span.start + 2) with
    | some close => close + 1
    | none => span.start + 3

theorem escapesAt_iff : EscapesAt text position ↔
    ∃ sigil rest, text.drop position = '\\' :: sigil :: '{' :: rest ∧ isSigil sigil = true := by
  have hdrop : (text.drop position).tail = text.drop (position + 1) := List.tail_drop
  constructor
  · intro h
    obtain ⟨sigil, rest, hrest, hsigil⟩ := opensAt_iff.1 h.opens
    obtain ⟨hlt, hbackslash⟩ := List.getElem?_eq_some_iff.1 h.backslash
    refine ⟨sigil, rest, ?_, hsigil⟩
    rw [List.drop_eq_getElem_cons hlt, hbackslash, hrest]
  · intro ⟨sigil, rest, hrest, hsigil⟩
    rw [hrest] at hdrop
    refine ⟨?_, opensAt_iff.2 ⟨sigil, rest, hdrop.symm, hsigil⟩⟩
    rw [← List.head?_drop, hrest]
    rfl

/-- How many characters an escaped expression takes up when `rest` stands behind
    its opening brace. -/
def escapedLength (rest : List Char) : Nat :=
  (closingOffset '{' '}' .outside 0 ('{' :: rest)).getD 0 + 3

theorem escapedLength_le (rest : List Char) : escapedLength rest ≤ rest.length + 3 := by
  unfold escapedLength
  cases h : closingOffset '{' '}' .outside 0 ('{' :: rest) with
  | none => exact Nat.le_add_left 3 rest.length
  | some k =>
    have hk := closingOffset_lt h
    rw [List.length_cons] at hk
    show k + 3 ≤ rest.length + 3
    omega

theorem escaped_of_drop (h : text.drop position = '\\' :: sigil :: '{' :: rest)
    (hsigil : isSigil sigil = true) : Escaped text ⟨position, position + escapedLength rest⟩ := by
  have hdrop : text.drop (position + 1) = sigil :: '{' :: rest := by
    rw [← List.tail_drop, h]
    rfl
  refine ⟨escapesAt_iff.2 ⟨sigil, rest, h, hsigil⟩, ?_⟩
  have hclosing := findClosing_of_drop hdrop
  show position + escapedLength rest = match findClosing text (position + 2) with
    | some close => close + 1
    | none => position + 3
  rw [hclosing, escapedLength]
  cases closingOffset '{' '}' .outside 0 ('{' :: rest) with
  | none => rfl
  | some k =>
    show position + (k + 3) = k + (position + 2) + 1
    omega

/-! ## Blanking -/

/-- What a blanked character is replaced with. -/
def blanked (c : Char) : Char :=
  if c = '\n' then c else ' '

theorem stripEscaped_escape (hsigil : isSigil sigil = true) (rest : List Char) :
    stripEscaped ('\\' :: sigil :: '{' :: rest) =
      (('\\' :: sigil :: '{' :: rest).take (escapedLength rest)).map blanked ++
        stripEscaped (('\\' :: sigil :: '{' :: rest).drop (escapedLength rest)) := by
  have hblank : blanked sigil = ' ' := by
    refine if_neg ?_
    rintro rfl
    contradiction
  rw [stripEscaped, if_pos hsigil, escapedLength]
  simp only [List.take_succ_cons, List.drop_succ_cons, List.map_cons, hblank]
  rfl

theorem stripEscaped_pass {c : Char} (h : ¬EscapesAt (c :: rest) 0) :
    stripEscaped (c :: rest) = c :: stripEscaped rest := by
  conv_lhs => unfold stripEscaped
  split
  · rename_i sigil rest' heq
    obtain ⟨rfl, rfl⟩ := List.cons.inj heq
    have hsigil : ¬isSigil sigil = true := fun hsigil =>
      h (escapesAt_iff.2 ⟨sigil, rest', rfl, hsigil⟩)
    rw [if_neg hsigil]
  · rename_i heq
    obtain ⟨rfl, rfl⟩ := List.cons.inj heq
    rfl
  · contradiction

/-- The reading that blanks a text from a position on, with the spans it blanks
    and what it leaves. -/
inductive Blanks (text : List Char) : Nat → List Span → List Char → Prop
  /-- The text is at its end. -/
  | done {position : Nat} : text.length ≤ position → Blanks text position [] []
  /-- An escaped expression is blanked as a whole. -/
  | blank {position behind : Nat} {spans : List Span} {output : List Char} :
      Escaped text ⟨position, behind⟩ → position < behind → behind ≤ text.length →
      Blanks text behind spans output →
      Blanks text position (⟨position, behind⟩ :: spans)
        ((Span.slice ⟨position, behind⟩ text).map blanked ++ output)
  /-- One character is passed over where no escape begins. -/
  | pass {position : Nat} {c : Char} {spans : List Span} {output : List Char} :
      text[position]? = some c → ¬EscapesAt text position →
      Blanks text (position + 1) spans output → Blanks text position spans (c :: output)

/-- **What is left comes from such a reading**, by induction on what has not been
    read of the text. -/
theorem blanks_stripEscaped (text : List Char) (position : Nat) :
    ∃ spans, Blanks text position spans (stripEscaped (text.drop position)) := by
  induction hleft : text.length - position using Nat.strong_induction_on generalizing position with
  | _ left ih =>
    by_cases hend : text.length ≤ position
    · rw [List.drop_eq_nil_of_le hend, stripEscaped]
      exact ⟨[], .done hend⟩
    · by_cases hescape : EscapesAt text position
      · obtain ⟨sigil, rest, hdrop, hsigil⟩ := escapesAt_iff.1 hescape
        have hlength : text.length - position = rest.length + 3 := by
          rw [← List.length_drop, hdrop]
          rfl
        have hle := escapedLength_le rest
        have hpos : 3 ≤ escapedLength rest := Nat.le_add_left 3 _
        obtain ⟨spans, hrest⟩ := ih _ (by omega) (position + escapedLength rest) rfl
        refine ⟨⟨position, position + escapedLength rest⟩ :: spans, ?_⟩
        rw [hdrop, stripEscaped_escape hsigil, ← hdrop, List.drop_drop]
        have hslice : (text.drop position).take (escapedLength rest) =
            Span.slice ⟨position, position + escapedLength rest⟩ text := by
          rw [Span.slice, List.extract_eq_take_drop, Nat.add_sub_cancel_left]
        rw [hslice]
        exact .blank (escaped_of_drop hdrop hsigil) (by omega) (by omega) hrest
      · obtain ⟨spans, hrest⟩ := ih _ (by omega) (position + 1) rfl
        have hlt : position < text.length := Nat.lt_of_not_le hend
        have hhere : ¬EscapesAt (text[position] :: text.drop (position + 1)) 0 := by
          rwa [← List.drop_eq_getElem_cons hlt, escapesAt_iff, List.drop_zero, ← escapesAt_iff]
        refine ⟨spans, ?_⟩
        rw [List.drop_eq_getElem_cons hlt, stripEscaped_pass hhere]
        exact .pass (List.getElem?_eq_getElem hlt) hescape hrest

/-! ## What is blanked -/

/-- Nothing is blanked before the reading begins. -/
theorem Blanks.le_start (h : Blanks text position spans output) :
    ∀ span ∈ spans, position ≤ span.start := by
  induction h with
  | done _ => simp
  | blank _ hpos _ _ ih =>
    intro span hspan
    rcases List.mem_cons.1 hspan with rfl | hspan
    · exact Nat.le_refl _
    · have := ih span hspan
      omega
  | pass _ _ _ ih =>
    intro span hspan
    have := ih span hspan
    omega

theorem Blanks.pairwise (h : Blanks text position spans output) :
    spans.Pairwise fun span other => span.stop ≤ other.start := by
  induction h with
  | done _ => exact .nil
  | blank _ _ _ hrest ih => exact .cons hrest.le_start ih
  | pass _ _ _ ih => exact ih

theorem Blanks.escaped (h : Blanks text position spans output) :
    ∀ span ∈ spans, Escaped text span := by
  induction h with
  | done _ => simp
  | blank hescaped _ _ _ ih => exact List.forall_mem_cons.2 ⟨hescaped, ih⟩
  | pass _ _ _ ih => exact ih

/-- **Every escape is blanked**, also one that stands in another. -/
theorem Blanks.covers (h : Blanks text position spans output) (hescape : EscapesAt text i)
    (hstart : position ≤ i) : ∃ span ∈ spans, span.start ≤ i ∧ i < span.stop := by
  induction h with
  | done hend =>
    obtain ⟨hlt, -⟩ := List.getElem?_eq_some_iff.1 hescape.backslash
    omega
  | @blank position behind spans output _ _ _ _ ih =>
    by_cases hinside : i < behind
    · exact ⟨_, List.mem_cons_self, hstart, hinside⟩
    · obtain ⟨span, hspan, hbounds⟩ := ih (by omega)
      exact ⟨span, List.mem_cons_of_mem _ hspan, hbounds⟩
  | @pass position c spans output _ hnone _ ih =>
    apply ih
    have hne : i ≠ position := by
      rintro rfl
      exact hnone hescape
    omega

/-- **Nothing else is**: a character stays as it is outside of the spans, and in
    one of them a newline does. -/
theorem Blanks.getElem?_eq (h : Blanks text position spans output) (i : Nat) :
    output[i]? = text[position + i]?.map fun c =>
      if ∃ span ∈ spans, span.start ≤ position + i ∧ position + i < span.stop then blanked c
      else c := by
  induction h generalizing i with
  | done hend =>
    rw [List.getElem?_eq_none (by omega : text.length ≤ _)]
    rfl
  | @blank position behind spans output _ hpos hle _ ih =>
    have hlength : (Span.slice ⟨position, behind⟩ text).length = behind - position :=
      length_slice hle
    by_cases hinside : i < behind - position
    · -- The first span holds the position.
      have hcovered : ∃ span ∈ (⟨position, behind⟩ : Span) :: spans,
          span.start ≤ position + i ∧ position + i < span.stop :=
        ⟨_, List.mem_cons_self, Nat.le_add_right position i, by show position + i < behind; omega⟩
      simp only [if_pos hcovered]
      rw [List.getElem?_append_left (by simpa [hlength]), List.getElem?_map,
        getElem?_slice hinside]
    · -- Behind it only the other spans count.
      obtain ⟨k, rfl⟩ := Nat.exists_eq_add_of_le (Nat.le_of_not_lt hinside)
      have hbehind : position + (behind - position + k) = behind + k := by omega
      rw [List.getElem?_append_right (by simp [hlength]), List.length_map, hlength,
        Nat.add_sub_cancel_left, ih, hbehind]
      have hhead : ¬behind + k < behind := by omega
      simp only [List.exists_mem_cons_iff, hhead, and_false, false_or]
  | @pass position c spans output hc _ hrest ih =>
    cases i with
    | zero =>
      -- All spans begin further on.
      have huncovered : ¬∃ span ∈ spans, span.start ≤ position + 0 ∧ position + 0 < span.stop := by
        intro ⟨span, hspan, hstart, _⟩
        have := hrest.le_start span hspan
        omega
      simp only [if_neg huncovered]
      rw [Nat.add_zero, hc]
      rfl
    | succ i =>
      rw [List.getElem?_cons_succ, ih, Nat.add_right_comm, Nat.add_assoc]

/-! ## What is left -/

/-- What is no blank was there before. -/
theorem Blanks.kept {c : Char} (h : Blanks text 0 spans output) (hc : output[i]? = some c)
    (hne : c ≠ ' ') : text[i]? = some c ∧
      (c = '\n' ∨ ¬∃ span ∈ spans, span.start ≤ i ∧ i < span.stop) := by
  rw [h.getElem?_eq, Nat.zero_add] at hc
  obtain ⟨d, hd, hread⟩ := Option.map_eq_some_iff.1 hc
  split at hread
  · by_cases hnewline : d = '\n'
    · obtain rfl : d = c := by rwa [blanked, if_pos hnewline] at hread
      exact ⟨hd, .inl hnewline⟩
    · rw [blanked, if_neg hnewline] at hread
      exact absurd hread.symm hne
  · rename_i huncovered
    exact ⟨hread ▸ hd, .inr huncovered⟩

/-- **No escape is left**: it would be one of the text. -/
theorem not_escapesAt_stripEscaped (text : List Char) (i : Nat) :
    ¬EscapesAt (stripEscaped text) i := by
  intro hescape
  obtain ⟨spans, h⟩ := blanks_stripEscaped text 0
  rw [List.drop_zero] at h
  obtain ⟨sigil, hread, hsigil⟩ := hescape.opens.sigil
  obtain ⟨hbackslash, huncovered⟩ := h.kept hescape.backslash (by decide)
  have hne : sigil ≠ ' ' := by
    rintro rfl
    contradiction
  -- None of the three characters is a blank.
  have hbefore : EscapesAt text i :=
    ⟨hbackslash, ⟨sigil, (h.kept hread hne).1, hsigil⟩, (h.kept hescape.opens.brace (by decide)).1⟩
  rcases huncovered with hnewline | huncovered
  · contradiction
  · exact huncovered (h.covers hbefore (Nat.zero_le i))

/-- A text without escapes is left as it is. -/
theorem stripEscaped_of_not_escapesAt (h : ∀ i, ¬EscapesAt text i) : stripEscaped text = text := by
  obtain ⟨spans, hblanks⟩ := blanks_stripEscaped text 0
  rw [List.drop_zero] at hblanks
  have hnone : spans = [] := by
    rw [List.eq_nil_iff_forall_not_mem]
    intro span hspan
    exact h span.start (hblanks.escaped span hspan).opens
  subst hnone
  apply List.ext_getElem?
  intro i
  rw [hblanks.getElem?_eq, Nat.zero_add]
  simp

/-- **Escaped expressions are blanked, and nothing else**: the blanked text is as
    long as the text, and there are spans in order and apart, each that of an
    escaped expression, such that every escape lies in one of them and a character
    is blanked when it lies in one of them and is no newline. No escape is left,
    so blanking again changes nothing, neither the text nor what it reads. -/
theorem stripEscaped_exact (text : List Char) :
    (stripEscaped text).length = text.length ∧
    (∃ spans : List Span,
      spans.Pairwise (fun span other => span.stop ≤ other.start) ∧
      (∀ span ∈ spans, Escaped text span) ∧
      (∀ i, EscapesAt text i → ∃ span ∈ spans, span.start ≤ i ∧ i < span.stop) ∧
      ∀ i, (stripEscaped text)[i]? = text[i]?.map fun c =>
        if (∃ span ∈ spans, span.start ≤ i ∧ i < span.stop) ∧ c ≠ '\n' then ' ' else c) ∧
    (∀ i, ¬EscapesAt (stripEscaped text) i) ∧
    stripEscaped (stripEscaped text) = stripEscaped text ∧
    Variable.templateMatches (stripEscaped text) = Variable.templateMatches text := by
  obtain ⟨spans, h⟩ := blanks_stripEscaped text 0
  rw [List.drop_zero] at h
  have hread : ∀ i, (stripEscaped text)[i]? = text[i]?.map fun c =>
      if (∃ span ∈ spans, span.start ≤ i ∧ i < span.stop) ∧ c ≠ '\n' then ' ' else c := by
    intro i
    rw [h.getElem?_eq, Nat.zero_add]
    congr 1
    funext c
    unfold blanked
    by_cases hcovered : ∃ span ∈ spans, span.start ≤ i ∧ i < span.stop
    · simp only [hcovered, if_true, true_and, ite_not]
    · simp only [hcovered, if_false, false_and]
  have hlength : ∀ i, (stripEscaped text).length ≤ i ↔ text.length ≤ i := by
    intro i
    rw [← List.getElem?_eq_none_iff, hread, Option.map_eq_none_iff, List.getElem?_eq_none_iff]
  have hagain : stripEscaped (stripEscaped text) = stripEscaped text :=
    stripEscaped_of_not_escapesAt (not_escapesAt_stripEscaped text)
  refine ⟨?_, ⟨spans, h.pairwise, h.escaped, fun i hi => h.covers hi (Nat.zero_le i), hread⟩,
    not_escapesAt_stripEscaped text, hagain, ?_⟩
  · exact Nat.le_antisymm ((hlength _).2 (Nat.le_refl _)) ((hlength _).1 (Nat.le_refl _))
  · show _ = Variable.templateMatches text
    unfold Variable.templateMatches
    rw [hagain]

/-- One escape in another goes with it, and one that is never closed hides no
    expression behind it. -/
example : stripEscaped "\\$\x7ba\n\\*{b}\x7d\\#\x7bc${d}".toList =
    "    \n         c${d}".toList := by
  decide +kernel

end TemplateAnalysis.Expression
