import Mathlib.Data.List.Forall2
import TemplateAnalysis.Proofs.Expression.Words
import TemplateAnalysis.Proofs.Reference.Holding
import TemplateAnalysis.Proofs.Text.Search

/-! # Where parameters stand

    A parameter list is cut at commas, blanks fall away at the ends of what is
    left, and of an assignment only the value is read. Every step has a span for
    what it leaves:

    * **`held_parameterSpans`**: the parameters of a list, span by span;
    * **`held_valueSpans`**: the values that they pass.

    Commas and blanks are in no word, so no word goes on beyond a parameter
    (`delimited_of_mem_splitParameters`).
-/

namespace TemplateAnalysis.Expression

open Text Markup Reference

variable {text cs piece : List Char} {pieces : List (List Char)} {position : Nat}

/-! ## Blanks around a text -/

theorem exists_trimLeft_eq_append_trim (cs : List Char) :
    ∃ back, (∀ c ∈ back, isBlank c = true) ∧ trimLeft cs = trim cs ++ back := by
  obtain ⟨back, hback, hleft⟩ := exists_eq_append_trimLeft (trimLeft cs).reverse
  refine ⟨back.reverse, fun c hc => hback c (List.mem_reverse.1 hc), ?_⟩
  calc trimLeft cs
      = (trimLeft cs).reverse.reverse := (List.reverse_reverse _).symm
    _ = (trimLeft (trimLeft cs).reverse).reverse ++ back.reverse := by
        rw [hleft, List.reverse_append, ← hleft]
    _ = trim cs ++ back.reverse := rfl

/-- Trimming takes away blanks at either end. -/
theorem exists_eq_append_trim (cs : List Char) :
    ∃ front back, (∀ c ∈ front, isBlank c = true) ∧ (∀ c ∈ back, isBlank c = true) ∧
      cs = front ++ (trim cs ++ back) := by
  obtain ⟨front, hfront, hcs⟩ := exists_eq_append_trimLeft cs
  obtain ⟨back, hback, hleft⟩ := exists_trimLeft_eq_append_trim cs
  exact ⟨front, back, hfront, hback, hleft ▸ hcs⟩

theorem head?_trimLeft {c : Char} (h : (trimLeft cs).head? = some c) : isBlank c = false := by
  have hdrop := List.head?_dropWhile_not isBlank cs
  unfold trimLeft at h
  rw [h] at hdrop
  simpa using hdrop

/-- It takes them all away. -/
theorem solid_trim (hne : trim cs ≠ []) : Solid (trim cs) := by
  refine ⟨hne, ?_, ?_⟩
  · intro c hc
    obtain ⟨back, -, hleft⟩ := exists_trimLeft_eq_append_trim cs
    have hfirst : (trimLeft cs).head? = some c := by
      rw [hleft, List.head?_append, hc]
      rfl
    exact head?_trimLeft hfirst
  · intro c hc
    unfold trim trimRight at hc
    rw [List.getLast?_reverse] at hc
    exact head?_trimLeft hc

/-- What stands between the blanks is left. -/
theorem trim_between {front back : List Char} (hfront : ∀ c ∈ front, isBlank c = true)
    (hcs : Solid cs) (hback : ∀ c ∈ back, isBlank c = true) :
    trim (front ++ (cs ++ back)) = cs := by
  have left : trimLeft (cs ++ back) = cs ++ back := by
    obtain ⟨c, others, rfl⟩ := List.exists_cons_of_ne_nil hcs.ne_nil
    exact trimLeft_cons (hcs.first c rfl) (others ++ back)
  have right : trimLeft cs.reverse = cs.reverse := by
    cases hr : cs.reverse with
    | nil => rfl
    | cons c others =>
      exact trimLeft_cons (hcs.last c (by rw [← List.head?_reverse, hr]; rfl)) others
  have flipped : ∀ c ∈ back.reverse, isBlank c = true := fun c hc => hback c (List.mem_reverse.1 hc)
  calc trim (front ++ (cs ++ back))
      = trimRight (cs ++ back) := by rw [trim, trimLeft_append hfront, left]
    _ = (trimLeft (back.reverse ++ cs.reverse)).reverse := by
        rw [trimRight, List.reverse_append]
        rfl
    _ = cs := by rw [trimLeft_append flipped, right, List.reverse_reverse]

theorem trim_blanks_append (hfront : ∀ c ∈ cs, isBlank c = true) (ds : List Char) :
    trim (cs ++ ds) = trim ds := by
  rw [trim, trimLeft_append hfront, trim]

/-- Blanks at the end are no part of what stands in front of another character. -/
theorem trimRight_append_cons {c : Char} (hc : isBlank c = false) (cs ds : List Char) :
    trimRight (cs ++ c :: ds) = cs ++ c :: trimRight ds := by
  have hback : (ds.reverse ++ (c :: cs.reverse)).dropWhile isBlank =
      ds.reverse.dropWhile isBlank ++ c :: cs.reverse := by
    rw [List.dropWhile_append]
    by_cases hnone : (ds.reverse.dropWhile isBlank).isEmpty = true
    · rw [if_pos hnone, List.isEmpty_iff.1 hnone, List.dropWhile_cons_of_neg (by simp [hc])]
      rfl
    · rw [if_neg hnone]
  unfold trimRight
  rw [List.reverse_append, List.reverse_cons, List.append_assoc, List.singleton_append, hback]
  simp

theorem any_isWordChar_of_blank (h : ∀ c ∈ cs, isBlank c = true) : cs.any isWordChar = false := by
  rw [List.any_eq_false]
  intro c hc
  simp [isWordChar_eq_false_of_isBlank (h c hc)]

theorem delimited_trim (cs : List Char) : Delimited (trim cs) cs := by
  obtain ⟨front, back, hfront, hback, hcs⟩ := exists_eq_append_trim cs
  refine ⟨front, back, hcs, ?_, ?_⟩
  · exact endsInWord_of_any (any_isWordChar_of_blank hfront)
  · exact startsWithWord_of_any (any_isWordChar_of_blank hback)

/-! ## Pieces between commas -/

theorem cutAtCommas_ne_nil (s : Nesting) (cs : List Char) : cutAtCommas s cs ≠ [] := by
  fun_cases cutAtCommas s cs <;> simp_all

/-- Cutting takes away nothing but the commas. -/
theorem joinWith_cutAtCommas (s : Nesting) (cs : List Char) :
    joinWith [','] (cutAtCommas s cs) = cs := by
  induction cs generalizing s with
  | nil => simp [cutAtCommas, joinWith]
  | cons c rest ih =>
    rw [cutAtCommas]
    split
    · rename_i hcomma
      obtain ⟨-, hc⟩ := Bool.and_eq_true _ _ ▸ hcomma
      obtain rfl : c = ',' := by simpa using hc
      obtain ⟨first, others, hcut⟩ := List.exists_cons_of_ne_nil (cutAtCommas_ne_nil s rest)
      rw [hcut, joinWith_cons_cons, ← hcut, ih]
      rfl
    · obtain ⟨first, others, hcut⟩ :=
        List.exists_cons_of_ne_nil (cutAtCommas_ne_nil (s.step c) rest)
      rw [hcut]
      dsimp only
      rw [joinWith_cons_head, ← hcut, ih]

/-- No word goes on beyond a piece, as its neighbours are separators. -/
theorem delimited_of_mem_joinWith {separator : Char} (hs : isWordChar separator = false)
    (h : piece ∈ pieces) : Delimited piece (joinWith [separator] pieces) := by
  induction pieces with
  | nil => simp at h
  | cons first rest ih =>
    cases rest with
    | nil =>
      obtain rfl := List.mem_singleton.1 h
      have hjoin : joinWith [separator] [piece] = piece := by simp [joinWith]
      rw [hjoin]
      exact .refl piece
    | cons second others =>
      rw [joinWith_cons_cons]
      rcases List.mem_cons.1 h with rfl | h
      · exact ⟨[], _, rfl, rfl, hs⟩
      · -- The pieces behind the first are set apart as a whole.
        refine (ih h).trans ⟨first ++ [separator], [], by simp, ?_, rfl⟩
        rw [endsInWord_concat, hs]

theorem delimited_of_mem_splitParameters {parameter : List Char}
    (h : parameter ∈ splitParameters text) : Delimited parameter text := by
  obtain ⟨piece, hp, rfl⟩ := List.mem_map.1 (List.mem_filter.1 h).1
  have hpiece := delimited_of_mem_joinWith (show isWordChar ',' = false by decide) hp
  rw [joinWith_cutAtCommas] at hpiece
  exact (delimited_trim piece).trans hpiece

/-! ## Spans -/

/-- The span holds the part of the text. -/
def Held (text : List Char) (span : Span) (part : List Char) : Prop :=
  ∃ before after, text = before ++ (part ++ after) ∧
    span = ⟨before.length, before.length + part.length⟩

theorem Held.holds {span : Span} (h : Held text span piece) :
    ∃ rest, Holds text span piece rest := by
  obtain ⟨before, after, rfl, rfl⟩ := h
  exact ⟨after, List.drop_left, rfl⟩

theorem Held.slice_eq {span : Span} (h : Held text span piece) : span.slice text = piece := by
  obtain ⟨rest, h⟩ := h.holds
  exact h.slice_eq

/-- The spans of pieces that stand one behind the other, with a comma between
    each two, from `position` on. -/
def pieceSpans (position : Nat) : List (List Char) → List Span
  | [] => []
  | piece :: pieces =>
    ⟨position, position + piece.length⟩ :: pieceSpans (position + piece.length + 1) pieces

/-- Pieces with commas between them stand at their spans. -/
theorem held_pieceSpans {before : List Char} (hposition : position = before.length)
    (h : text = before ++ joinWith [','] pieces) :
    List.Forall₂ (Held text) (pieceSpans position pieces) pieces := by
  induction pieces generalizing position before with
  | nil => exact .nil
  | cons piece rest ih =>
    cases rest with
    | nil =>
      refine .cons ⟨before, [], ?_, by rw [hposition]⟩ .nil
      rw [h]
      simp [joinWith]
    | cons second others =>
      rw [joinWith_cons_cons] at h
      have hnext : position + piece.length + 1 = (before ++ piece ++ [',']).length := by
        simp [hposition, Nat.add_assoc]
      refine .cons ⟨before, _, h, by rw [hposition]⟩ (ih hnext ?_)
      rw [h]
      simp

/-- The spans of the parameters of a list. -/
def parameterSpans (text : List Char) : List Span :=
  ((pieceSpans 0 (cutAtCommas {} text)).filter fun span =>
    !(trim (span.slice text)).isEmpty).map (trimRegion text)

theorem Held.trimmed {span : Span} (h : Held text span piece) (hne : trim piece ≠ []) :
    Held text (trimRegion text span) (trim piece) := by
  obtain ⟨front, back, hfront, hback, hpiece⟩ := exists_eq_append_trim piece
  rw [hpiece] at h
  obtain ⟨rest, hholds⟩ := h.holds
  rw [trimRegion_eq hholds hfront hback (solid_trim hne)]
  obtain ⟨before, after, htext, hspan⟩ := h
  refine ⟨before ++ front, back ++ after, ?_, ?_⟩
  · rw [htext]
    simp only [List.append_assoc]
  · simp only [hspan, List.length_append]

/-- **Every parameter stands at its span.** -/
theorem held_parameterSpans (text : List Char) :
    List.Forall₂ (Held text) (parameterSpans text) (splitParameters text) := by
  have pieces : List.Forall₂ (Held text) (pieceSpans 0 (cutAtCommas {} text))
      (cutAtCommas {} text) := by
    refine held_pieceSpans List.length_nil.symm ?_
    rw [joinWith_cutAtCommas]
    rfl
  unfold parameterSpans splitParameters
  generalize pieceSpans 0 (cutAtCommas {} text) = spans at pieces ⊢
  generalize cutAtCommas {} text = cut at pieces ⊢
  induction pieces with
  | nil => exact .nil
  | @cons span piece _ _ hheld _ ih =>
    -- A span is kept when its piece is.
    rw [List.map_cons, List.filter_cons, List.filter_cons, hheld.slice_eq]
    cases hempty : (trim piece).isEmpty with
    | true => exact ih
    | false =>
      have hne : trim piece ≠ [] := by simpa using hempty
      exact .cons (hheld.trimmed hne) ih

/-- The span of the value that a parameter passes. -/
def valueSpan (text : List Char) (parameter : Span) : Span :=
  ⟨parameter.stop - (assignedValue (parameter.slice text)).length, parameter.stop⟩

/-- The spans of the values that the parameters of a list pass. -/
def valueSpans (text : List Char) : List Span :=
  (parameterSpans text).map (valueSpan text)

theorem assignedValue_suffix (parameter : List Char) : assignedValue parameter <:+ parameter := by
  unfold assignedValue
  split
  · exact List.drop_suffix _ _
  · exact List.suffix_refl _

theorem Held.value {span : Span} {parameter : List Char} (h : Held text span parameter) :
    Held text (valueSpan text span) (assignedValue parameter) := by
  obtain ⟨front, hfront⟩ := assignedValue_suffix parameter
  rw [valueSpan, h.slice_eq]
  obtain ⟨before, after, htext, hspan⟩ := h
  refine ⟨before ++ front, after, ?_, ?_⟩
  · rw [htext, List.append_assoc, ← List.append_assoc front, hfront]
  · have hlen := congrArg List.length hfront
    simp only [List.length_append] at hlen
    simp only [hspan, List.length_append, Span.mk.injEq]
    omega

/-- **Every value stands at its span.** -/
theorem held_valueSpans (text : List Char) :
    List.Forall₂ (Held text) (valueSpans text) ((splitParameters text).map assignedValue) := by
  unfold valueSpans
  rw [List.forall₂_map_left_iff, List.forall₂_map_right_iff]
  exact (held_parameterSpans text).imp fun _ _ h => h.value

end TemplateAnalysis.Expression
