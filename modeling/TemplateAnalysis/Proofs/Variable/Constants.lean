import Mathlib.Data.List.TakeWhile
import TemplateAnalysis.Proofs.Expression.Lexing
import TemplateAnalysis.Proofs.Variable.Reading

/-! # Numbers read nothing

    What is a number for the test on whole operands is made of tokens of which none
    starts anything:

    * **`visits_number`**: the walk over the text of a number visits nothing.

    The test knows more numbers than there are number tokens: a minus sign and a
    point in front of all digits are tokens of their own. A type letter behind the
    digits is read as a part of the number and not as a name.
-/

namespace TemplateAnalysis.Variable

open Text Expression

variable {text rest : List Char} {c : Char}

/-! ## What a number is made of -/

/-- A point, if there is any, and the number behind it. -/
inductive Unsigned : List Char → Prop
  | number (number : Number) : Unsigned number.print
  | point (number : Number) : Unsigned ('.' :: number.print)

theorem unsigned_of_isDecimal (h : isDecimal text = true) : Unsigned text := by
  have hsplit := List.takeWhile_append_dropWhile (p := isDigit) (l := text)
  have hwhole : ∀ c ∈ text.takeWhile isDigit, isDigit c = true := fun _ => List.mem_takeWhile_imp
  unfold isDecimal at h
  generalize text.takeWhile isDigit = whole at hsplit hwhole
  split at h
  · -- Digits and nothing else.
    rename_i hdrop
    rw [hdrop, List.append_nil] at hsplit
    subst hsplit
    have hne : whole ≠ [] := by simpa using h
    exact .number ⟨whole, [], hne, hwhole, by simp⟩
  · rename_i fraction hdrop
    rw [hdrop] at hsplit
    obtain ⟨hne, hfraction⟩ : fraction ≠ [] ∧ ∀ c ∈ fraction, isDigit c = true := by simpa using h
    rw [← hsplit]
    by_cases hwhole_ne : whole = []
    · rw [hwhole_ne]
      exact .point ⟨fraction, [], hne, hfraction, by simp⟩
    · have hprint : (Number.mk whole fraction hwhole_ne hwhole hfraction).print =
          whole ++ '.' :: fraction := if_neg hne
      exact hprint ▸ .number ⟨whole, fraction, hwhole_ne, hwhole, hfraction⟩
  · contradiction

/-! ## What stands behind the digits -/

theorem endsNumber_nil : EndsNumber [] 0 :=
  endsNumber_boundary boundary_nil

/-- A type letter belongs to the number. -/
theorem endsNumber_suffix (h : isTypeSuffix c = true) : EndsNumber [c] 1 where
  digit d hd := by
    obtain rfl : c = d := by simpa using hd
    have none : "lLfFdD".toList.all (fun d => !isDigit d) = true := by decide
    simpa using List.all_eq_true.1 none c (List.contains_iff_mem.1 h)
  fraction := by
    have hpoint : c ≠ '.' := ne_of_class h (by decide)
    unfold fractionLength
    split
    · rename_i heq
      exact absurd (List.cons.inj heq).1 hpoint
    · rfl
  length := by
    intro n cs hdrop
    have hexponent : exponentLength [c] = 0 := by
      have hlower : (c == 'e') = false := beq_eq_false_iff_ne.2 (ne_of_class h (by decide))
      have hupper : (c == 'E') = false := beq_eq_false_iff_ne.2 (ne_of_class h (by decide))
      simp [exponentLength, hlower, hupper]
    have hsuffix : suffixLength [c] = 1 := if_pos h
    have hend : cs.drop (n + 1) = [] := by
      rw [← List.drop_drop, hdrop]
      rfl
    simp only [numberLengthFrom, hdrop, hexponent, Nat.add_zero, hsuffix, hend]
    rfl

/-! ## Tokens that start nothing -/

/-- Every token of the text is passed over. -/
def PassedOver (text : List Char) : Prop :=
  ∀ piece ∈ piecesOf text, piece.1 ∉ [TokenKind.nested, .identifier, .utility, .bean]

theorem passedOver_nil : PassedOver [] := by
  intro piece h
  simp [piecesOf, tokenize, tokensFrom_nil] at h

/-- The walk visits no token that is passed over. -/
theorem visits_eq_nil (h : PassedOver text) : visits text = [] := by
  have passed : ∀ index stop, walk (Body.ofText text) index stop = [] := by
    intro index stop
    have other : ∀ {i : Nat} {t : Token}, (tokenize text)[i]? = some t →
        t.kind ∉ [TokenKind.nested, .identifier, .utility, .bean] := fun ht =>
      h _ (List.mem_map_of_mem (List.mem_of_getElem? ht))
    fun_induction walk (Body.ofText text) index stop
    case case1 | case7 => rfl
    case case2 t ht hk _ => exact absurd (by rw [hk]; decide) (other ht)
    case case3 t ht hk _ _ | case4 t ht hk _ _ | case5 t ht hk _ _ =>
      exact absurd (by rw [hk]; decide) (other ht)
    case case6 ih => exact ih
  exact passed 0 _

/-- A number, with what belongs to it, is one token. -/
theorem passedOver_number (number : Number) (h : EndsNumber rest rest.length) :
    PassedOver (number.print ++ rest) := by
  have hpieces : piecesOf (number.print ++ rest) =
      (.number, number.print ++ rest) :: piecesOf [] := by
    have hlexeme : lexeme (number.print ++ rest ++ []) =
        ⟨some .number, (number.print ++ rest).length⟩ := by
      rw [List.append_nil, List.length_append]
      exact lexeme_number number h
    have htoken := piecesOf_token _ [] (by simp [number.print_ne_nil]) hlexeme
    rwa [List.append_nil] at htoken
  intro piece hpiece
  rw [hpieces] at hpiece
  rcases List.mem_cons.1 hpiece with rfl | hpiece
  · simp
  · exact passedOver_nil piece hpiece

theorem Unsigned.passedOver (h : Unsigned text) (hrest : EndsNumber rest rest.length) :
    PassedOver (text ++ rest) := by
  cases h with
  | number number => exact passedOver_number number hrest
  | point number =>
    obtain ⟨c, more, hprint, hc⟩ := number.exists_cons_print
    have hfilter : isFilterSign c = false := isFilterSign_eq_false_of_class hc (by decide)
    have hnumber := passedOver_number number hrest
    rw [hprint, List.cons_append] at hnumber
    intro piece hpiece
    rw [hprint, List.cons_append, List.cons_append, piecesOf_dot hfilter] at hpiece
    rcases List.mem_cons.1 hpiece with rfl | hpiece
    · simp
    · exact hnumber piece hpiece

/-- A minus sign in front of a text is an operator. -/
theorem PassedOver.minus (h : PassedOver text) : PassedOver ('-' :: text) := by
  have hpieces : piecesOf ('-' :: text) = (.operator, ['-']) :: piecesOf text := by
    refine piecesOf_token ['-'] _ (by simp) ?_
    rw [List.singleton_append, lexeme_plainSign (by decide) (by decide) (by decide) (by decide)
      (by decide) (by decide) (by decide), signLexeme?_single (by decide) (by decide) (by decide)
      (fun d _ => by simp [doubleOperators]) (by decide)]
    rfl
  intro piece hpiece
  rw [hpieces] at hpiece
  rcases List.mem_cons.1 hpiece with rfl | hpiece
  · simp
  · exact h piece hpiece

/-- Digits with a point, and a type letter behind them if there is any. -/
theorem passedOver_of_isDecimal (h : (isDecimal text ||
    (text.getLast?.any isTypeSuffix && isDecimal text.dropLast)) = true) : PassedOver text := by
  rcases Bool.or_eq_true _ _ ▸ h with h | h
  · have hpassed := (unsigned_of_isDecimal h).passedOver endsNumber_nil
    rwa [List.append_nil] at hpassed
  · obtain ⟨hsuffix, hdecimal⟩ := Bool.and_eq_true _ _ ▸ h
    obtain ⟨c, hlast, hc⟩ := (Option.any_eq_true _ _).1 hsuffix
    have hsplit : text.dropLast ++ [c] = text := List.dropLast_append_getLast? c hlast
    exact hsplit ▸ (unsigned_of_isDecimal hdecimal).passedOver (endsNumber_suffix hc)

/-- **Numbers read nothing**: the walk over a number visits nothing. -/
theorem visits_number (htrim : trim text = text) (h : isNumericLiteral text = true) :
    visits text = [] := by
  apply visits_eq_nil
  unfold isNumericLiteral at h
  rw [htrim] at h
  split at h
  · exact (passedOver_of_isDecimal h).minus
  · exact passedOver_of_isDecimal h

end TemplateAnalysis.Variable
