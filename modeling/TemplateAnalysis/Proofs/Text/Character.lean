import TemplateAnalysis.Expression.Token

/-! # Classes of characters

    How the classes of characters that the readers test for lie to each other:
    what can start a name continues one, and is neither a blank nor a digit;
    neither digits nor letters have anything in common with blanks, in any
    script.
-/

namespace TemplateAnalysis.Text

/-- The digits of every script but ASCII lie beyond it. -/
theorem digitZeros_ascii : ∀ first ∈ digitZeros, first = 48 ∨ 1632 ≤ first := by
  decide

theorem isDigit_eq_false_of_ascii {c : Char} (h : c.toNat < 1632)
    (hd : c.toNat < 48 ∨ 58 ≤ c.toNat) : isDigit c = false := by
  unfold isDigit digitValue?
  rw [Option.isSome_map, Option.isSome_eq_false_iff, Option.isNone_iff_eq_none,
    List.find?_eq_none]
  intro first hf
  rcases digitZeros_ascii first hf with rfl | hf
  · simp only [Bool.and_eq_true, decide_eq_true_eq]
    omega
  · simp only [Bool.and_eq_true, decide_eq_true_eq]
    omega

/-- An ASCII letter or the underscore, by its number. -/
theorem toNat_of_isNameStart {c : Char} (h : isNameStart c = true) :
    (65 ≤ c.toNat ∧ c.toNat ≤ 90) ∨ (97 ≤ c.toNat ∧ c.toNat ≤ 122) ∨ c.toNat = 95 := by
  unfold isNameStart at h
  rcases Bool.or_eq_true _ _ ▸ h with h | h
  · have hcase : (c.isUpper || c.isLower) = true := h
    rcases Bool.or_eq_true _ _ ▸ hcase with hupper | hlower
    · have hbounds : (65 : UInt32) ≤ c.val ∧ c.val ≤ 90 := of_decide_eq_true hupper
      exact .inl hbounds
    · rcases Bool.and_eq_true _ _ ▸ hlower with ⟨hleast, hgreatest⟩
      have hfrom : (97 : UInt32) ≤ c.val := of_decide_eq_true hleast
      have hto : c.val ≤ 122 := of_decide_eq_true hgreatest
      exact .inr (.inl ⟨hfrom, hto⟩)
  · have : c = '_' := by simpa using h
    subst this
    exact .inr (.inr rfl)

theorem isWordChar_of_isNameStart {c : Char} (h : isNameStart c = true) : isWordChar c = true := by
  have hn := toNat_of_isNameStart h
  unfold isWordChar
  rw [if_pos (by omega)]
  unfold isNameStart at h
  rcases Bool.or_eq_true _ _ ▸ h with h | h
  · simp [Char.isAlphanum, h]
  · simp [h]

theorem isDigit_eq_false_of_isNameStart {c : Char} (h : isNameStart c = true) :
    isDigit c = false := by
  have := toNat_of_isNameStart h
  exact isDigit_eq_false_of_ascii (by omega) (by omega)

theorem isBlank_eq_false_of_isNameStart {c : Char} (h : isNameStart c = true) :
    isBlank c = false := by
  have := toNat_of_isNameStart h
  unfold isBlank
  simp only [Bool.or_eq_false_iff, Bool.and_eq_false_iff, decide_eq_false_iff_not,
    beq_eq_false_iff_ne, ne_eq]
  omega

/-- The blanks by their numbers. -/
theorem toNat_of_isBlank {c : Char} (h : isBlank c = true) :
    (9 ≤ c.toNat ∧ c.toNat ≤ 13) ∨ (28 ≤ c.toNat ∧ c.toNat ≤ 32) ∨ c.toNat = 133 ∨
      c.toNat = 160 ∨ c.toNat = 5760 ∨ (8192 ≤ c.toNat ∧ c.toNat ≤ 8202) ∨
      c.toNat = 8232 ∨ c.toNat = 8233 ∨ c.toNat = 8239 ∨ c.toNat = 8287 ∨ c.toNat = 12288 := by
  unfold isBlank at h
  simp only [Bool.or_eq_true, Bool.and_eq_true, decide_eq_true_eq, beq_iff_eq] at h
  omega

/-- No script has digits where blanks are. -/
theorem digitZeros_blank : ∀ first ∈ digitZeros,
    first + 9 < 5760 ∧ (160 < first ∨ (32 < first ∧ first + 9 < 133)) ∨
      (5760 < first ∧ first + 9 < 8192) ∨ 12288 < first := by
  decide

theorem isDigit_eq_false_of_isBlank {c : Char} (h : isBlank c = true) : isDigit c = false := by
  have hn := toNat_of_isBlank h
  unfold isDigit digitValue?
  rw [Option.isSome_map, Option.isSome_eq_false_iff, Option.isNone_iff_eq_none,
    List.find?_eq_none]
  intro first hf
  have := digitZeros_blank first hf
  simp only [Bool.and_eq_true, decide_eq_true_eq]
  omega

theorem isBlank_eq_false_of_isDigit {c : Char} (h : isDigit c = true) : isBlank c = false := by
  cases hb : isBlank c with
  | false => rfl
  | true =>
    rw [isDigit_eq_false_of_isBlank hb] at h
    contradiction

/-- No range of letters and digits holds a blank. -/
theorem letterRanges_blank : ∀ range ∈ letterRanges,
    160 < range.1 ∧ (range.2 < 5760 ∨ 5760 < range.1 ∧ range.2 < 8192 ∨
      8202 < range.1 ∧ range.2 < 8232 ∨ 8233 < range.1 ∧ range.2 < 8239 ∨
      8239 < range.1 ∧ range.2 < 8287 ∨ 8287 < range.1 ∧ range.2 < 12288 ∨ 12288 < range.1) := by
  decide +kernel

theorem toNat_of_isAlphanum {c : Char} (h : c.isAlphanum = true) : 48 ≤ c.toNat := by
  have classes : ((c.isUpper || c.isLower) || c.isDigit) = true := h
  rw [Bool.or_eq_true, Bool.or_eq_true] at classes
  rcases classes with (h | h) | h
  · have hbounds : (65 : UInt32) ≤ c.val ∧ c.val ≤ 90 := of_decide_eq_true h
    exact Nat.le_trans (by decide) (UInt32.le_iff_toNat_le.1 hbounds.1)
  · have hfrom : (97 : UInt32) ≤ c.val := of_decide_eq_true (Bool.and_eq_true _ _ ▸ h).1
    exact Nat.le_trans (by decide) (UInt32.le_iff_toNat_le.1 hfrom)
  · have hfrom : (48 : UInt32) ≤ c.val := of_decide_eq_true (Bool.and_eq_true _ _ ▸ h).1
    exact UInt32.le_iff_toNat_le.1 hfrom

theorem isWordChar_eq_false_of_isBlank {c : Char} (h : isBlank c = true) :
    isWordChar c = false := by
  have hn := toNat_of_isBlank h
  unfold isWordChar
  split
  · rw [Bool.or_eq_false_iff, beq_eq_false_iff_ne]
    refine ⟨?_, ?_⟩
    · cases ha : c.isAlphanum with
      | false => rfl
      | true =>
        have := toNat_of_isAlphanum ha
        omega
    · rintro rfl
      revert h
      decide
  · unfold inRanges
    rw [List.any_eq_false]
    intro range hr
    have := letterRanges_blank range hr
    simp only [Bool.and_eq_true, decide_eq_true_eq]
    omega

/-- A character of a class is none of those outside it. -/
theorem ne_of_class {p : Char → Bool} {c d : Char} (h : p c = true) (hd : p d = false) :
    c ≠ d := by
  rintro rfl
  rw [h] at hd
  contradiction

/-- What is made of a class holds no character outside it. -/
theorem not_mem_of_class {p : Char → Bool} {c : Char} {cs : List Char}
    (h : ∀ d ∈ cs, p d = true) (hc : p c = false) : c ∉ cs := by
  intro hmem
  exact ne_of_class (h c hmem) hc rfl

theorem isNameChar_eq_false_of_isBlank {c : Char} (h : isBlank c = true) :
    isNameChar c = false := by
  have hdash : (c == '-') = false := beq_eq_false_iff_ne.2 (ne_of_class h (by decide))
  rw [isNameChar, isWordChar_eq_false_of_isBlank h, hdash, Bool.or_self]

theorem isIdentifier_cons {c : Char} {rest : List Char} (h : isIdentifier (c :: rest) = true) :
    isNameStart c = true ∧ ∀ d ∈ rest, isWordChar d = true := by
  unfold isIdentifier at h
  simpa using h

/-- An identifier starts with a letter or underscore. -/
theorem exists_cons_of_isIdentifier {text : List Char} (h : isIdentifier text = true) :
    ∃ c rest, text = c :: rest ∧ isNameStart c = true ∧ ∀ d ∈ rest, isWordChar d = true := by
  cases text with
  | nil => contradiction
  | cons c rest => exact ⟨c, rest, rfl, isIdentifier_cons h⟩

/-- An identifier consists of word characters. -/
theorem isWordChar_of_mem_identifier {text : List Char} (h : isIdentifier text = true) {c : Char}
    (hc : c ∈ text) : isWordChar c = true := by
  obtain ⟨first, rest, rfl, hf, hr⟩ := exists_cons_of_isIdentifier h
  rcases List.mem_cons.1 hc with rfl | hc
  · exact isWordChar_of_isNameStart hf
  · exact hr c hc

end TemplateAnalysis.Text
