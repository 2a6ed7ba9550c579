import Mathlib.Data.Int.Log
import TemplateAnalysis.Decimal.Arithmetic
import TemplateAnalysis.Proofs.Decimal.Shortest

/-! # Differences and their order

    Two numbers are compared by the rationals that they stand for, and a difference is
    the rational one, rounded. Rounding keeps the order of rationals
    (**`roundTo_mono`**), up to where it ends at an infinity, and from this follows what
    holds of rounded differences as it does of exact ones:

    * **`sub_lt_of_lt`**: when a number is taken away from another and not enough is
      left, then taking away a larger one leaves not enough either;
    * **`not_sub_lt_of_le`**: when enough is left exactly, then enough is left.
-/

namespace TemplateAnalysis.Decimal

/-! ## Rounding a rational number -/

/-- The exponent at which a rational number is rounded. -/
def exponentFor (q : ℚ) : Int :=
  max (Int.log 2 q - 52) (-1074)

/-- A rational number that is not negative, rounded to 53 bits, however large it is. -/
def rounded (q : ℚ) : ℚ :=
  roundEven (q / 2 ^ exponentFor q) * 2 ^ exponentFor q

/-- The least number that is too large. -/
def limit : ℚ :=
  2 ^ (1024 : Int)

/-- Rounding to a natural number keeps the order. -/
theorem roundEven_mono {p q : ℚ} (hp : 0 ≤ p) (h : p ≤ q) : roundEven p ≤ roundEven q := by
  have hfloor : ⌊p⌋₊ ≤ ⌊q⌋₊ := Nat.floor_mono h
  rcases Nat.lt_or_ge ⌊p⌋₊ ⌊q⌋₊ with hlt | hge
  · -- A number in between is a bound for both.
    have hp' : p < (⌊q⌋₊ : ℚ) := (Nat.floor_lt hp).1 hlt
    exact (roundEven_le hp' hp).trans (le_roundEven (Nat.floor_le (hp.trans h)))
  · have hsame : ⌊p⌋₊ = ⌊q⌋₊ := Nat.le_antisymm hfloor hge
    unfold roundEven
    rw [hsame]
    split_ifs <;> first | omega | linarith

theorem roundEven_zero : roundEven 0 = 0 := by
  simp [roundEven]

theorem rounded_zero : rounded 0 = 0 := by
  rw [rounded, zero_div, roundEven_zero]
  simp

theorem rounded_nonneg (q : ℚ) : 0 ≤ rounded q :=
  mul_nonneg (Nat.cast_nonneg _) (two_zpow_pos _).le

/-- A positive number lies between two powers of two. -/
theorem log_spec {q : ℚ} (hq : 0 < q) :
    (2 : ℚ) ^ (Int.log 2 q - 52 + 52) ≤ q ∧ q < 2 ^ (Int.log 2 q - 52 + 53) := by
  rw [show Int.log 2 q - 52 + 52 = Int.log 2 q by omega,
    show Int.log 2 q - 52 + 53 = Int.log 2 q + 1 by omega]
  exact ⟨by exact_mod_cast Int.zpow_log_le_self (R := ℚ) one_lt_two hq,
    by exact_mod_cast Int.lt_zpow_succ_log_self (R := ℚ) one_lt_two q⟩

/-- What is rounded at a smaller exponent comes to less than what is rounded at a
    larger one. -/
theorem rounded_mono {p q : ℚ} (hp : 0 ≤ p) (h : p ≤ q) : rounded p ≤ rounded q := by
  rcases hp.eq_or_lt with rfl | hp'
  · rw [rounded_zero]
    exact rounded_nonneg q
  have hq := hp'.trans_le h
  have hexponent : exponentFor p ≤ exponentFor q := by
    have := Int.log_mono_right (b := 2) hp' h
    unfold exponentFor
    omega
  obtain ⟨-, hu⟩ := log_spec hp'
  obtain ⟨hl, -⟩ := log_spec hq
  unfold rounded
  rcases hexponent.eq_or_lt with hsame | hless
  · rw [hsame]
    apply mul_le_mul_of_nonneg_right _ (two_zpow_pos _).le
    have hpos := two_zpow_pos (exponentFor q)
    exact_mod_cast roundEven_mono (div_nonneg hp hpos.le) (div_le_div_of_nonneg_right h hpos.le)
  · -- The power of two in between is a bound for both.
    have upper := significand_le hp hu (le_max_left _ (-1074))
    have lower := le_significand (e := exponentFor q) hl (by unfold exponentFor at hless ⊢; omega)
    have hu' : (roundEven (p / 2 ^ exponentFor p) : ℚ) ≤ 2 ^ (53 : Int) := by
      rw [leastSignificand_eq] at upper
      exact_mod_cast upper
    have hl' : (2 : ℚ) ^ (52 : Int) ≤ roundEven (q / 2 ^ exponentFor q) := by
      rw [leastSignificand_eq] at lower
      exact_mod_cast lower
    calc (roundEven (p / 2 ^ exponentFor p) : ℚ) * 2 ^ exponentFor p
        ≤ 2 ^ (53 : Int) * 2 ^ exponentFor p :=
          mul_le_mul_of_nonneg_right hu' (two_zpow_pos _).le
      _ = 2 ^ (53 + exponentFor p) := (two_zpow_add _ _).symm
      _ ≤ 2 ^ (52 + exponentFor q) := two_zpow_le_iff.2 (by omega)
      _ = 2 ^ (52 : Int) * 2 ^ exponentFor q := two_zpow_add _ _
      _ ≤ roundEven (q / 2 ^ exponentFor q) * 2 ^ exponentFor q :=
          mul_le_mul_of_nonneg_right hl' (two_zpow_pos _).le

/-- A rational number, rounded to 53 bits. -/
def roundTo (q : ℚ) : ℚ :=
  if q < 0 then -rounded (-q) else rounded q

/-- **Rounding keeps the order of rational numbers.** -/
theorem roundTo_mono {p q : ℚ} (h : p ≤ q) : roundTo p ≤ roundTo q := by
  unfold roundTo
  by_cases hp : p < 0
  · rw [if_pos hp]
    by_cases hq : q < 0
    · rw [if_pos hq]
      exact neg_le_neg (rounded_mono (by linarith) (by linarith))
    · rw [if_neg hq]
      exact (neg_nonpos.2 (rounded_nonneg _)).trans (rounded_nonneg q)
  · rw [if_neg hp, if_neg (by linarith)]
    exact rounded_mono (not_lt.1 hp) h

/-- The exponent of a ratio is that of its value. -/
theorem Ratio.max_binaryExponent {ratio : Ratio} (hn : ratio.numerator ≠ 0)
    (hd : 0 < ratio.denominator) : max ratio.binaryExponent (-1074) = exponentFor ratio.value := by
  obtain ⟨hl, hu⟩ := Ratio.binaryExponent_spec hn hd
  obtain ⟨hl', hu'⟩ := log_spec (lt_of_lt_of_le (two_zpow_pos _) hl)
  rw [binaryExponent_unique hl hu hl' hu', exponentFor]

/-- **A ratio is rounded as its value is**, and is infinite from the limit on. -/
theorem Ratio.toBinary64_spec {ratio : Ratio} (hd : 0 < ratio.denominator) (negative : Bool) :
    (rounded ratio.value < limit ∧ ∃ m e, ratio.toBinary64 negative = .finite negative m e ∧
      (m : ℚ) * 2 ^ e = rounded ratio.value) ∨
    (limit ≤ rounded ratio.value ∧ ratio.toBinary64 negative = .infinity negative) := by
  by_cases hn : ratio.numerator = 0
  · left
    rw [(Ratio.value_eq_zero_iff hd).2 hn, rounded_zero]
    refine ⟨two_zpow_pos 1024, 0, -1074, ?_, by simp⟩
    unfold Ratio.toBinary64
    rw [if_pos hn]
  · obtain ⟨hl, hu⟩ := Ratio.binaryExponent_spec hn hd
    have hmax := Ratio.max_binaryExponent hn hd
    unfold Ratio.toBinary64 rounded limit
    rw [if_neg hn]
    simp only [Ratio.round_scale hd, hmax]
    generalize exponentFor ratio.value = e at hmax
    have upper := significand_le ratio.value_nonneg hu (show ratio.binaryExponent ≤ e by omega)
    have lower : -1074 < e → leastSignificand ≤ roundEven (ratio.value / 2 ^ e) :=
      fun hlt => le_significand hl (by omega)
    generalize roundEven (ratio.value / 2 ^ e) = m at upper lower
    rw [leastSignificand_eq] at upper lower ⊢
    have hpos := two_zpow_pos e
    by_cases hc : m = 2 * 2 ^ 52
    · -- The significand is carried, and the number is a power of two.
      have hvalue : (m : ℚ) * 2 ^ e = 2 ^ (53 + e) := by
        rw [hc, two_zpow_add]
        norm_num
      simp only [hc, if_true]
      rw [← hc, hvalue]
      by_cases hlarge : 971 < e + 1
      · rw [if_pos hlarge]
        exact .inr ⟨two_zpow_le_iff.2 (by omega), rfl⟩
      · rw [if_neg hlarge]
        refine .inl ⟨two_zpow_lt_iff.2 (by omega), _, _, rfl, ?_⟩
        rw [show (53 : Int) + e = 52 + (e + 1) by omega, two_zpow_add 52]
        norm_num
    · simp only [hc, if_false]
      by_cases hlarge : 971 < e
      · right
        rw [if_pos hlarge]
        refine ⟨?_, rfl⟩
        have hm : (2 : ℚ) ^ (52 : Int) ≤ m := by exact_mod_cast lower (by omega)
        calc (2 : ℚ) ^ (1024 : Int) ≤ 2 ^ (52 + e) := two_zpow_le_iff.2 (by omega)
          _ = 2 ^ (52 : Int) * 2 ^ e := two_zpow_add _ _
          _ ≤ m * 2 ^ e := mul_le_mul_of_nonneg_right hm hpos.le
      · left
        rw [if_neg hlarge]
        refine ⟨?_, _, _, rfl, rfl⟩
        have hm : (m : ℚ) < 2 ^ (53 : Int) := by exact_mod_cast (by omega : m < 2 ^ 53)
        calc (m : ℚ) * 2 ^ e < 2 ^ (53 : Int) * 2 ^ e := mul_lt_mul_of_pos_right hm hpos
          _ = 2 ^ (53 + e) := (two_zpow_add _ _).symm
          _ ≤ 2 ^ (1024 : Int) := two_zpow_le_iff.2 (by omega)

namespace Binary64

/-! ## Values -/

/-- The rational number that a finite number stands for. -/
def signedValue (negative : Bool) (significand : Nat) (exponent : Int) : ℚ :=
  signed negative significand * 2 ^ exponent

/-- The rational number that a number stands for, if it is finite. -/
def rational? : Binary64 → Option ℚ
  | .finite s m e => some (signedValue s m e)
  | .infinity _ | .nan => none

/-- The aligned difference, in its unit, is that of the values. -/
theorem alignedDifference_mul (m e n f : Int) :
    (alignedDifference m e n f : ℚ) * 2 ^ min e f = m * 2 ^ e - n * 2 ^ f := by
  have hscale : ∀ d : Int, min e f ≤ d →
      ((2 ^ (d - min e f).toNat : Nat) : ℚ) * 2 ^ min e f = 2 ^ d := by
    intro d hd
    rw [Nat.cast_pow, Nat.cast_ofNat, ← zpow_natCast, ← two_zpow_add,
      Int.toNat_of_nonneg (by omega), sub_add_cancel]
  unfold alignedDifference
  simp only [Nat.pow_eq]
  push_cast [← hscale e (min_le_left e f), ← hscale f (min_le_right e f)]
  ring

theorem finite_lt_finite_iff {s t : Bool} {m n : Nat} {e f : Int} :
    Binary64.finite s m e < .finite t n f ↔ signedValue s m e < signedValue t n f := by
  have hdifference := alignedDifference_mul (signed s m) e (signed t n) f
  have hpos := two_zpow_pos (min e f)
  show decide (alignedDifference (signed s m) e (signed t n) f < 0) = true ↔ _
  rw [decide_eq_true_iff, ← sub_neg (a := signedValue s m e)]
  unfold signedValue
  rw [← hdifference, ← Int.cast_lt_zero (R := ℚ)]
  exact ⟨fun h => mul_neg_of_neg_of_pos h hpos, fun h => neg_of_mul_neg_left h hpos.le⟩

/-! ## Order -/

/-- A number is at most as large as another: what the other is less than it is less
    than. -/
def AtMost : Binary64 → Binary64 → Prop
  | .infinity true, _ | _, .infinity false | _, .nan => True
  | .finite s m e, .finite t n f => signedValue s m e ≤ signedValue t n f
  | _, _ => False

theorem atMost_infinity (x : Binary64) : x.AtMost (.infinity false) := by
  rcases x with _ | negative | _
  · trivial
  · cases negative <;> trivial
  · trivial

theorem atMost_nan (x : Binary64) : x.AtMost .nan := by
  rcases x with _ | negative | _
  · trivial
  · cases negative <;> trivial
  · trivial

theorem not_lt_self (x : Binary64) : ¬ x < x := by
  rcases x with ⟨s, m, e⟩ | s | _
  · rw [finite_lt_finite_iff]
    exact lt_irrefl _
  · cases s <;> exact Bool.false_ne_true
  · exact Bool.false_ne_true

theorem not_infinity_lt (z : Binary64) : ¬ Binary64.infinity false < z := by
  rcases z with _ | negative | _ <;> exact Bool.false_ne_true

theorem not_nan_lt (z : Binary64) : ¬ Binary64.nan < z := by
  rcases z with _ | negative | _ <;> exact Bool.false_ne_true

/-- What anything is less than, the least number is less than. -/
theorem infinity_lt_of_lt {y z : Binary64} (h : y < z) : Binary64.infinity true < z := by
  rcases z with _ | negative | _
  · rfl
  · cases negative with
    | false => rfl
    | true => rcases y with _ | s | _ <;> first | exact h | cases s <;> exact h
  · rcases y with _ | s | _ <;> exact h

theorem AtMost.lt {x y z : Binary64} (h : x.AtMost y) (hlt : y < z) : x < z := by
  rcases y with ⟨t, n, f⟩ | t | _
  · rcases x with ⟨s, m, e⟩ | s | _
    · rcases z with ⟨u, k, g⟩ | u | _
      · rw [finite_lt_finite_iff] at hlt ⊢
        exact lt_of_le_of_lt h hlt
      · exact hlt
      · exact hlt
    · cases s with
      | true => exact infinity_lt_of_lt hlt
      | false => exact h.elim
    · exact h.elim
  · cases t with
    | false => exact absurd hlt (not_infinity_lt z)
    | true =>
      rcases x with _ | s | _
      · exact h.elim
      · cases s with
        | true => exact hlt
        | false => exact h.elim
      · exact h.elim
  · exact absurd hlt (not_nan_lt z)

/-! ## Differences -/

/-- The number is a rational one, rounded. -/
def RoundsTo (q : ℚ) : Binary64 → Prop
  | .finite s m e => -limit < roundTo q ∧ roundTo q < limit ∧ signedValue s m e = roundTo q
  | .infinity true => roundTo q ≤ -limit
  | .infinity false => limit ≤ roundTo q
  | .nan => False

/-- Rounded numbers are in the order of what was rounded. -/
theorem RoundsTo.atMost {p q : ℚ} {x y : Binary64} (hx : RoundsTo p x) (hy : RoundsTo q y)
    (h : p ≤ q) : x.AtMost y := by
  have hmono := roundTo_mono h
  have hlimit : 0 < limit := two_zpow_pos 1024
  rcases x with ⟨s, m, e⟩ | s | _
  · obtain ⟨hl, -, hvalue⟩ := hx
    rcases y with ⟨t, n, f⟩ | t | _
    · exact (hvalue.trans_le hmono).trans_eq hy.2.2.symm
    · cases t with
      | false => trivial
      | true => exact absurd (hmono.trans hy) (not_le.2 hl)
    · exact hy.elim
  · cases s with
    | true => trivial
    | false =>
      have hlarge : limit ≤ roundTo q := le_trans hx hmono
      rcases y with ⟨t, n, f⟩ | t | _
      · exact absurd hlarge (not_le.2 hy.2.1)
      · cases t with
        | false => trivial
        | true => exact absurd (hlarge.trans hy) (by linarith)
      · exact hy.elim
  · exact hx.elim

theorem roundTo_of_nonpos {q : ℚ} (h : q ≤ 0) : roundTo q = -rounded (-q) := by
  rcases h.eq_or_lt with rfl | hlt
  · rw [roundTo, if_neg (lt_irrefl _), neg_zero, rounded_zero, neg_zero]
  · rw [roundTo, if_pos hlt]

theorem roundTo_of_nonneg {q : ℚ} (h : 0 ≤ q) : roundTo q = rounded q := by
  rw [roundTo, if_neg (not_lt.2 h)]

/-- A ratio with a sign is rounded to a number. -/
theorem roundsTo_toBinary64 {ratio : Ratio} (hd : 0 < ratio.denominator) (negative : Bool) :
    RoundsTo (if negative then -ratio.value else ratio.value) (ratio.toBinary64 negative) := by
  have hvalue := ratio.value_nonneg
  have hlimit : 0 < limit := two_zpow_pos 1024
  have hrounded := rounded_nonneg ratio.value
  cases negative with
  | true =>
    have hround : roundTo (-ratio.value) = -rounded ratio.value := by
      rw [roundTo_of_nonpos (by linarith), neg_neg]
    rcases Ratio.toBinary64_spec hd true with ⟨hlt, m, e, heq, hm⟩ | ⟨hle, heq⟩
    · rw [heq]
      refine ⟨?_, ?_, ?_⟩
      · rw [if_pos rfl, hround]
        linarith
      · rw [if_pos rfl, hround]
        linarith
      · rw [if_pos rfl, hround, ← hm]
        simp [signedValue, signed]
    · rw [heq]
      show roundTo (-ratio.value) ≤ -limit
      rw [hround]
      exact neg_le_neg hle
  | false =>
    have hround : roundTo ratio.value = rounded ratio.value := roundTo_of_nonneg hvalue
    rcases Ratio.toBinary64_spec hd false with ⟨hlt, m, e, heq, hm⟩ | ⟨hle, heq⟩
    · rw [heq]
      refine ⟨?_, ?_, ?_⟩
      · show -limit < roundTo ratio.value
        linarith
      · show roundTo ratio.value < limit
        rwa [hround]
      · show signedValue false m e = roundTo ratio.value
        rw [hround, ← hm]
        simp [signedValue, signed]
    · rw [heq]
      show limit ≤ roundTo ratio.value
      rwa [hround]

theorem value_magnitude_natAbs (d e : Int) :
    (magnitude d.natAbs e).value = |(d : ℚ)| * 2 ^ e := by
  rw [value_magnitude, numberValue, Nat.cast_natAbs, Int.cast_abs]

/-- **The difference of finite numbers is that of their values, rounded.** -/
theorem roundsTo_sub (s t : Bool) (m n : Nat) (e f : Int) :
    RoundsTo (signedValue s m e - signedValue t n f)
      (Binary64.finite s m e - Binary64.finite t n f) := by
  have hdifference := alignedDifference_mul (signed s m) e (signed t n) f
  show RoundsTo _ ((magnitude (alignedDifference (signed s m) e (signed t n) f).natAbs
    (min e f)).toBinary64 _)
  generalize alignedDifference (signed s m) e (signed t n) f = d at hdifference
  generalize hnegative : (decide (d < 0) || (decide (d = 0) && s && !t)) = negative
  have hround := roundsTo_toBinary64 (denominator_magnitude d.natAbs (min e f)) negative
  -- The sign of the difference is that of the exact one, unless that is nothing.
  have hexact : signedValue s m e - signedValue t n f =
      if negative then -(magnitude d.natAbs (min e f)).value
      else (magnitude d.natAbs (min e f)).value := by
    unfold signedValue
    rw [← hdifference, value_magnitude_natAbs]
    rcases lt_trichotomy d 0 with hlt | rfl | hgt
    · have hd : (d : ℚ) < 0 := by exact_mod_cast hlt
      simp [← hnegative, hlt, abs_of_neg hd]
    · simp
    · have hd : (0 : ℚ) < d := by exact_mod_cast hgt
      simp [← hnegative, hgt.not_gt, hgt.ne', abs_of_pos hd]
  rwa [hexact]

/-- Taking away more leaves less. -/
theorem sub_atMost_sub {a b : Binary64} (h : a < b) (n : Binary64) : (n - b).AtMost (n - a) := by
  rcases a with ⟨s, m, e⟩ | s | _
  · rcases b with ⟨t, k, f⟩ | t | _
    · rw [finite_lt_finite_iff] at h
      rcases n with ⟨u, j, g⟩ | u | _
      · exact (roundsTo_sub u t j k g f).atMost (roundsTo_sub u s j m g e) (by linarith)
      · cases u <;> trivial
      · trivial
    · cases t with
      | false => rcases n with _ | u | _ <;> first | trivial | cases u <;> trivial
      | true => cases h
    · cases h
  · cases s with
    | false => exact absurd h (not_infinity_lt b)
    | true =>
      rcases n with _ | u | _
      · exact atMost_infinity _
      · cases u with
        | false => exact atMost_infinity _
        | true => exact atMost_nan _
      · exact atMost_nan _
  · exact absurd h (not_nan_lt b)

/-- **When not enough is left of a number, then not enough is left without a larger
    one.** -/
theorem sub_lt_of_lt {a b n d : Binary64} (h : a < b) (hlt : n - a < d) : n - b < d :=
  (sub_atMost_sub h n).lt hlt

/-- A number of double precision is rounded to itself. -/
theorem roundsTo_self {s : Bool} {m : Nat} {e : Int} (h : (Binary64.finite s m e).Canonical) :
    RoundsTo (signedValue s m e) (.finite s m e) := by
  have hround := roundsTo_toBinary64 (denominator_magnitude m e) s
  have hvalue : signedValue s m e =
      if s then -(magnitude m e).value else (magnitude m e).value := by
    rw [value_magnitude]
    cases s <;> simp [signedValue, signed, numberValue]
  have hsame : (magnitude m e).toBinary64 s = .finite s m e := by
    by_cases hm : m = 0
    · obtain rfl : e = -1074 := h.2.2.2 (by rw [hm]; decide)
      subst hm
      rfl
    · apply Ratio.toBinary64_of_near (denominator_magnitude m e) hm h
      rw [value_magnitude, numberValue, sub_self, abs_zero]
      have hpos := numberValue_pos hm e
      exact div_pos hpos (by norm_num)
  rwa [hvalue, ← hsame]

/-- **Enough is left of a number if enough is left exactly.** -/
theorem not_sub_lt_of_le {c n d : Binary64} (hd : d.Canonical) {x y z : ℚ}
    (hx : c.rational? = some x) (hy : n.rational? = some y) (hz : d.rational? = some z)
    (h : x ≤ y - z) : ¬ n - c < d := by
  rcases c with ⟨s, m, e⟩ | _ | _
  · rcases n with ⟨t, k, f⟩ | _ | _
    · rcases d with ⟨u, j, g⟩ | _ | _
      · obtain rfl := Option.some.inj hx
        obtain rfl := Option.some.inj hy
        obtain rfl := Option.some.inj hz
        -- The difference is at least the number that it would be less than.
        have hle := (roundsTo_self hd).atMost (roundsTo_sub t s k m f e) (by linarith)
        exact fun hlt => not_lt_self _ (hle.lt hlt)
      · cases hz
      · cases hz
    · cases hy
    · cases hy
  · cases hx
  · cases hx

end Binary64

end TemplateAnalysis.Decimal
