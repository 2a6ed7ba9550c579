import Mathlib.Algebra.Order.Field.Power
import Mathlib.Algebra.Order.Floor.Semifield
import Mathlib.Data.Rat.Floor
import Mathlib.Tactic.FieldSimp
import Mathlib.Tactic.Linarith
import Mathlib.Tactic.NormNum
import TemplateAnalysis.Decimal.Shortest

/-! # Rounding to double precision

    A ratio is rounded by its value alone, and the rounding is what it should
    be in the neighbourhood of a number of double precision:

    * **`Ratio.toBinary64_congr`**: ratios of one value are rounded alike;
    * **`Ratio.toBinary64_of_near`**: what differs from a number by less than
      its 2⁵⁴th part is rounded to it;
    * **`Ratio.canonical_toBinary64`**: the result is a number of double
      precision, however large or small the ratio is.
-/

namespace TemplateAnalysis.Decimal

/-- Is this one of the numbers of double precision? A finite one has a
    significand of 53 bits, or the least exponent. -/
def Binary64.Canonical : Binary64 → Prop
  | .finite _ significand exponent =>
    significand < 2 * leastSignificand ∧ -1074 ≤ exponent ∧ exponent ≤ 971 ∧
      (significand < leastSignificand → exponent = -1074)
  | .infinity _ | .nan => True

theorem leastSignificand_eq : leastSignificand = 2 ^ 52 := by
  rfl

/-! ## Values -/

/-- The number that a ratio stands for. -/
def Ratio.value (ratio : Ratio) : ℚ :=
  ratio.numerator / ratio.denominator

theorem Ratio.denominator_scale {ratio : Ratio} (h : 0 < ratio.denominator) {base : Nat}
    (hb : 0 < base) (exponent : Int) : 0 < (ratio.scale base exponent).denominator := by
  unfold Ratio.scale
  split
  · exact h
  · exact Nat.mul_pos h (Nat.pow_pos hb)

theorem Ratio.value_scale {ratio : Ratio} {base : Nat} (hb : 0 < base) (exponent : Int) :
    (ratio.scale base exponent).value = ratio.value * (base : ℚ) ^ exponent := by
  have hbase : (base : ℚ) ≠ 0 := by exact_mod_cast hb.ne'
  unfold Ratio.scale Ratio.value
  by_cases h : 0 ≤ exponent
  · obtain ⟨n, rfl⟩ := Int.eq_ofNat_of_zero_le h
    rw [if_pos h]
    simp only [Int.toNat_natCast, Nat.pow_eq, Nat.cast_mul, Nat.cast_pow, zpow_natCast]
    rw [mul_div_right_comm]
  · obtain ⟨n, hn⟩ := Int.eq_ofNat_of_zero_le (show 0 ≤ -exponent by omega)
    obtain rfl : exponent = -(n : Int) := by omega
    rw [if_neg h]
    simp only [neg_neg, Int.toNat_natCast, Nat.pow_eq, Nat.cast_mul, Nat.cast_pow, zpow_neg,
      zpow_natCast]
    rw [div_mul_eq_div_div, div_eq_mul_inv _ ((base : ℚ) ^ n)]

theorem Ratio.value_eq_zero_iff {ratio : Ratio} (h : 0 < ratio.denominator) :
    ratio.value = 0 ↔ ratio.numerator = 0 := by
  have hd : (ratio.denominator : ℚ) ≠ 0 := by exact_mod_cast h.ne'
  unfold Ratio.value
  rw [div_eq_zero_iff]
  constructor
  · intro h
    rcases h with h | h
    · exact_mod_cast h
    · exact absurd h hd
  · intro h
    left
    exact_mod_cast h

theorem Ratio.value_nonneg (ratio : Ratio) : 0 ≤ ratio.value := by
  unfold Ratio.value
  positivity

/-! ## The nearest natural number -/

/-- The nearest natural number to a rational one that is not negative. -/
def roundEven (q : ℚ) : Nat :=
  if q < ⌊q⌋₊ + 1 / 2 then ⌊q⌋₊
  else if ⌊q⌋₊ + 1 / 2 < q then ⌊q⌋₊ + 1
  else if ⌊q⌋₊ % 2 = 0 then ⌊q⌋₊ else ⌊q⌋₊ + 1

theorem Ratio.round_eq {ratio : Ratio} (h : 0 < ratio.denominator) :
    ratio.round = roundEven ratio.value := by
  have hd : (0 : ℚ) < ratio.denominator := by exact_mod_cast h
  have floor : ⌊ratio.value⌋₊ = ratio.numerator / ratio.denominator :=
    Nat.floor_div_eq_div ratio.numerator ratio.denominator
  -- The numerator is the quotient times the denominator, and the remainder.
  have split : (ratio.numerator : ℚ) = ratio.denominator *
      ((ratio.numerator / ratio.denominator : Nat) : ℚ) +
        ((ratio.numerator % ratio.denominator : Nat) : ℚ) := by
    exact_mod_cast (Nat.div_add_mod ratio.numerator ratio.denominator).symm
  have less : ratio.value < ((ratio.numerator / ratio.denominator : Nat) : ℚ) + 1 / 2 ↔
      2 * (ratio.numerator % ratio.denominator) < ratio.denominator := by
    rw [← Nat.cast_lt (α := ℚ), Ratio.value, div_lt_iff₀ hd, split]
    push_cast
    constructor
    · intro h
      linarith
    · intro h
      linarith
  have more : ((ratio.numerator / ratio.denominator : Nat) : ℚ) + 1 / 2 < ratio.value ↔
      ratio.denominator < 2 * (ratio.numerator % ratio.denominator) := by
    rw [← Nat.cast_lt (α := ℚ), Ratio.value, lt_div_iff₀ hd, split]
    push_cast
    constructor
    · intro h
      linarith
    · intro h
      linarith
  unfold roundEven Ratio.round
  simp only [floor, less, more]

theorem roundEven_le {q : ℚ} {n : Nat} (h : q < n) (hq : 0 ≤ q) : roundEven q ≤ n := by
  have hf : ⌊q⌋₊ < n := (Nat.floor_lt hq).2 h
  unfold roundEven
  split
  · omega
  · split
    · omega
    · split <;> omega

theorem le_roundEven {q : ℚ} {n : Nat} (h : n ≤ q) : n ≤ roundEven q := by
  have hf : n ≤ ⌊q⌋₊ := Nat.le_floor h
  unfold roundEven
  split
  · exact hf
  · split
    · omega
    · split <;> omega

/-- What lies nearer than one half is the nearest. -/
theorem roundEven_of_near {q : ℚ} {n : Nat} (hq : 0 ≤ q) (h : |q - n| < 1 / 2) :
    roundEven q = n := by
  obtain ⟨hl, hu⟩ := abs_lt.1 h
  unfold roundEven
  by_cases hn : (n : ℚ) ≤ q
  · have hf : ⌊q⌋₊ = n := by
      rw [Nat.floor_eq_iff hq]
      exact ⟨hn, by linarith⟩
    rw [hf, if_pos (by linarith)]
  · -- The number below is the floor, and the number itself is one more.
    have hpos : 0 < n := by
      rcases Nat.eq_zero_or_pos n with h0 | h0
      · rw [h0] at hn
        exact absurd (by exact_mod_cast hq) hn
      · exact h0
    have hf : ⌊q⌋₊ = n - 1 := by
      rw [Nat.floor_eq_iff hq, Nat.cast_sub hpos, Nat.cast_one]
      constructor
      · linarith
      · linarith
    have hcast : ((n - 1 : Nat) : ℚ) = n - 1 := by rw [Nat.cast_sub hpos, Nat.cast_one]
    rw [hf, hcast, if_neg (by linarith), if_pos (by linarith)]
    omega

/-! ## The binary exponent -/

theorem two_zpow_pos (e : Int) : (0 : ℚ) < 2 ^ e := by
  positivity

theorem two_zpow_le_iff {a b : Int} : (2 : ℚ) ^ a ≤ 2 ^ b ↔ a ≤ b :=
  zpow_le_zpow_iff_right₀ (by norm_num)

theorem two_zpow_lt_iff {a b : Int} : (2 : ℚ) ^ a < 2 ^ b ↔ a < b :=
  zpow_lt_zpow_iff_right₀ (by norm_num)

theorem two_zpow_add (a b : Int) : (2 : ℚ) ^ (a + b) = 2 ^ a * 2 ^ b :=
  zpow_add₀ (by norm_num) a b

/-- A natural number lies between two powers of two. -/
theorem two_zpow_log2 {n : Nat} (h : n ≠ 0) :
    (2 : ℚ) ^ (n.log2 : Int) ≤ n ∧ (n : ℚ) < 2 ^ ((n.log2 : Int) + 1) := by
  constructor
  · rw [zpow_natCast]
    exact_mod_cast Nat.log2_self_le h
  · rw [show ((n.log2 : Int) + 1) = ((n.log2 + 1 : Nat) : Int) by push_cast; rfl, zpow_natCast]
    exact_mod_cast Nat.lt_log2_self

/-- The exponent at which a ratio has 53 bits before the point. -/
theorem Ratio.binaryExponent_spec {ratio : Ratio} (hn : ratio.numerator ≠ 0)
    (hd : 0 < ratio.denominator) :
    (2 : ℚ) ^ (ratio.binaryExponent + 52) ≤ ratio.value ∧
      ratio.value < 2 ^ (ratio.binaryExponent + 53) := by
  obtain ⟨nl, nu⟩ := two_zpow_log2 hn
  obtain ⟨dl, du⟩ := two_zpow_log2 hd.ne'
  have hdpos : (0 : ℚ) < ratio.denominator := by exact_mod_cast hd
  generalize hg : (ratio.numerator.log2 : Int) - (ratio.denominator.log2 : Int) - 52 = guess
  -- The guess is right, or one too large.
  have lower : (2 : ℚ) ^ (guess + 51) ≤ ratio.value := by
    rw [Ratio.value, le_div_iff₀ hdpos]
    calc (2 : ℚ) ^ (guess + 51) * ratio.denominator
        ≤ 2 ^ (guess + 51) * 2 ^ ((ratio.denominator.log2 : Int) + 1) :=
          mul_le_mul_of_nonneg_left du.le (two_zpow_pos _).le
      _ = 2 ^ (ratio.numerator.log2 : Int) := by
          rw [← two_zpow_add]
          congr 1
          omega
      _ ≤ ratio.numerator := nl
  have upper : ratio.value < 2 ^ (guess + 53) := by
    rw [Ratio.value, div_lt_iff₀ hdpos]
    calc (ratio.numerator : ℚ) < 2 ^ ((ratio.numerator.log2 : Int) + 1) := nu
      _ = 2 ^ (guess + 53) * 2 ^ (ratio.denominator.log2 : Int) := by
          rw [← two_zpow_add]
          congr 1
          omega
      _ ≤ 2 ^ (guess + 53) * ratio.denominator :=
          mul_le_mul_of_nonneg_left dl (two_zpow_pos _).le
  have scaled : (ratio.scale 2 (-guess)).numerator <
      leastSignificand * (ratio.scale 2 (-guess)).denominator ↔
        ratio.value < 2 ^ (guess + 52) := by
    have hsd := Ratio.denominator_scale hd (show 0 < 2 by norm_num) (-guess)
    have hsd' : (0 : ℚ) < (ratio.scale 2 (-guess)).denominator := by exact_mod_cast hsd
    have hv := @Ratio.value_scale ratio 2 (by norm_num) (-guess)
    rw [← Nat.cast_lt (α := ℚ), Nat.cast_mul, ← div_lt_iff₀ hsd']
    show (ratio.scale 2 (-guess)).value < _ ↔ _
    rw [hv, leastSignificand_eq]
    push_cast
    rw [zpow_neg, ← div_eq_mul_inv, div_lt_iff₀ (two_zpow_pos _), two_zpow_add, mul_comm]
    norm_cast
  unfold Ratio.binaryExponent
  simp only [hg]
  split
  · rename_i hlt
    rw [show guess - 1 + 52 = guess + 51 by omega, show guess - 1 + 53 = guess + 52 by omega]
    exact ⟨lower, scaled.1 hlt⟩
  · rename_i hge
    exact ⟨not_lt.1 fun h => hge (scaled.2 h), upper⟩

/-- There is only one such exponent. -/
theorem binaryExponent_unique {q : ℚ} {a b : Int} (ha : (2 : ℚ) ^ (a + 52) ≤ q)
    (ha' : q < 2 ^ (a + 53)) (hb : (2 : ℚ) ^ (b + 52) ≤ q) (hb' : q < 2 ^ (b + 53)) : a = b := by
  have h₁ := two_zpow_lt_iff.1 (lt_of_le_of_lt ha hb')
  have h₂ := two_zpow_lt_iff.1 (lt_of_le_of_lt hb ha')
  omega

/-! ## Rounding a ratio -/

/-- The value of a scaled ratio, rounded. -/
theorem Ratio.round_scale {ratio : Ratio} (hd : 0 < ratio.denominator) (e : Int) :
    (ratio.scale 2 (-e)).round = roundEven (ratio.value / 2 ^ e) := by
  have hv := @Ratio.value_scale ratio 2 (by norm_num) (-e)
  rw [Ratio.round_eq (Ratio.denominator_scale hd (by norm_num) _), hv, zpow_neg,
    ← div_eq_mul_inv]
  norm_cast

/-- Ratios of one value are rounded alike. -/
theorem Ratio.toBinary64_congr {ratio other : Ratio} (hd : 0 < ratio.denominator)
    (hd' : 0 < other.denominator) (h : ratio.value = other.value) (negative : Bool) :
    ratio.toBinary64 negative = other.toBinary64 negative := by
  have zero : ratio.numerator = 0 ↔ other.numerator = 0 := by
    rw [← Ratio.value_eq_zero_iff hd, ← Ratio.value_eq_zero_iff hd', h]
  unfold Ratio.toBinary64
  by_cases hn : ratio.numerator = 0
  · rw [if_pos hn, if_pos (zero.1 hn)]
  · have hn' : other.numerator ≠ 0 := fun h0 => hn (zero.2 h0)
    obtain ⟨hl, hu⟩ := Ratio.binaryExponent_spec hn hd
    obtain ⟨hl', hu'⟩ := Ratio.binaryExponent_spec hn' hd'
    have same : ratio.binaryExponent = other.binaryExponent :=
      binaryExponent_unique hl hu (h ▸ hl') (h ▸ hu')
    rw [if_neg hn, if_neg hn']
    simp only [same, Ratio.round_scale hd, Ratio.round_scale hd', h]

/-- A significand has at most 53 bits, or is the least number of 54. -/
theorem significand_le {q : ℚ} {E e : Int} (hq : 0 ≤ q) (hu : q < 2 ^ (E + 53)) (he : E ≤ e) :
    roundEven (q / 2 ^ e) ≤ 2 * leastSignificand := by
  have hpos := two_zpow_pos e
  apply roundEven_le _ (div_nonneg hq hpos.le)
  rw [div_lt_iff₀ hpos, leastSignificand_eq]
  calc q < 2 ^ (E + 53) := hu
    _ ≤ 2 ^ (e + 53) := two_zpow_le_iff.2 (by omega)
    _ = ((2 * 2 ^ 52 : Nat) : ℚ) * 2 ^ e := by
      rw [two_zpow_add, mul_comm]
      norm_num

/-- It has no less, unless the exponent is larger than it should be. -/
theorem le_significand {q : ℚ} {E e : Int} (hl : (2 : ℚ) ^ (E + 52) ≤ q) (he : e ≤ E) :
    leastSignificand ≤ roundEven (q / 2 ^ e) := by
  apply le_roundEven
  rw [le_div_iff₀ (two_zpow_pos e), leastSignificand_eq]
  calc ((2 ^ 52 : Nat) : ℚ) * 2 ^ e = 2 ^ (e + 52) := by
        rw [two_zpow_add, mul_comm]
        norm_num
    _ ≤ 2 ^ (E + 52) := two_zpow_le_iff.2 (by omega)
    _ ≤ q := hl

/-- Whatever is rounded, the result is a number of double precision. -/
theorem Ratio.canonical_toBinary64 {ratio : Ratio} (hd : 0 < ratio.denominator)
    (negative : Bool) : (ratio.toBinary64 negative).Canonical := by
  unfold Ratio.toBinary64
  by_cases hn : ratio.numerator = 0
  · rw [if_pos hn]
    refine ⟨?_, ?_, ?_, ?_⟩ <;> simp [leastSignificand]
  · rw [if_neg hn]
    obtain ⟨hl, hu⟩ := Ratio.binaryExponent_spec hn hd
    simp only [Ratio.round_scale hd]
    generalize he : max ratio.binaryExponent (-1074) = e
    have upper := significand_le ratio.value_nonneg hu (show ratio.binaryExponent ≤ e by omega)
    have lower : -1074 < e → leastSignificand ≤ roundEven (ratio.value / 2 ^ e) :=
      fun hlt => le_significand hl (by omega)
    by_cases hc : roundEven (ratio.value / 2 ^ e) = 2 * leastSignificand
    · simp only [hc, if_true]
      split
      · trivial
      · refine ⟨?_, ?_, ?_, ?_⟩
        · simp [leastSignificand]
        · omega
        · omega
        · intro h
          omega
    · simp only [hc, if_false]
      split
      · trivial
      · refine ⟨?_, ?_, ?_, ?_⟩
        · omega
        · omega
        · omega
        · intro h
          by_contra hne
          have := lower (by omega)
          omega

/-- In units of the last place of a number, what is near it is less than a quarter
    away. -/
theorem near_in_units {value : ℚ} {m : Nat} {e : Int}
    (h : |value - m * 2 ^ e| < m * 2 ^ e / 2 ^ 54) : |value / 2 ^ e - m| < m / 2 ^ 54 := by
  have hpos := two_zpow_pos e
  have hfactor : value - m * 2 ^ e = (value / 2 ^ e - m) * 2 ^ e := by
    rw [sub_mul, div_mul_cancel₀ _ hpos.ne']
  rw [hfactor, abs_mul, abs_of_pos hpos] at h
  have hright : (m : ℚ) * 2 ^ e / 2 ^ 54 = m / 2 ^ 54 * 2 ^ e := by ring
  rw [hright] at h
  exact lt_of_mul_lt_mul_right h hpos.le

section

variable {v : ℚ} {m : Nat} {e E : Int}

/-- What is near a number has no larger exponent. -/
theorem exponent_le_of_near (hm : m < 2 * 4503599627370496) (near : |v - m| < m / 2 ^ 54)
    (hl : (2 : ℚ) ^ (E + 52) ≤ v * 2 ^ e) : E ≤ e := by
  by_contra hgt
  have hmbits : (m : ℚ) ≤ 9007199254740991 := by
    exact_mod_cast (by omega : m ≤ 9007199254740991)
  have h₁ : (2 : ℚ) ^ (e + 53) ≤ v * 2 ^ e :=
    le_trans (two_zpow_le_iff.2 (by omega)) hl
  rw [two_zpow_add, mul_comm] at h₁
  have h₂ := le_of_mul_le_mul_right h₁ (two_zpow_pos e)
  have nu := (abs_lt.1 near).2
  norm_num at h₂ nu
  linarith

/-- What is near a number is rounded to its significand. -/
theorem roundEven_of_near_significand (hv : 0 ≤ v) (hm : m < 2 * 4503599627370496)
    (near : |v - m| < m / 2 ^ 54) : roundEven v = m := by
  have hmbits : (m : ℚ) ≤ 9007199254740991 := by
    exact_mod_cast (by omega : m ≤ 9007199254740991)
  apply roundEven_of_near hv
  calc |v - m| < m / 2 ^ 54 := near
    _ < 1 / 2 := by
      rw [div_lt_iff₀ (by norm_num)]
      linarith

/-- What is near a number but has a smaller exponent stands just below a power of
    two. -/
theorem power_of_near (hm : 2 ^ 52 ≤ m) (near : |v - m| < m / 2 ^ 54)
    (hu : v * 2 ^ e < 2 ^ (E + 53)) (hE : E < e) : m = 2 ^ 52 ∧ E = e - 1 ∧ v < 2 ^ 52 := by
  have hpos := two_zpow_pos e
  have nl := (abs_lt.1 near).1
  have hvlt : v < 2 ^ 52 := by
    have h₁ : v * 2 ^ e < 2 ^ (e + 52) := lt_of_lt_of_le hu (two_zpow_le_iff.2 (by omega))
    rw [two_zpow_add, mul_comm ((2 : ℚ) ^ e)] at h₁
    have h₂ := lt_of_mul_lt_mul_right h₁ hpos.le
    norm_num at h₂ ⊢
    exact h₂
  have hmeq : m = 2 ^ 52 := by
    apply Nat.le_antisymm _ hm
    by_contra hgt
    have h₁ : (4503599627370497 : ℚ) ≤ m := by
      exact_mod_cast (by omega : 4503599627370497 ≤ m)
    norm_num at nl hvlt
    linarith
  refine ⟨hmeq, ?_, hvlt⟩
  have hm' : (m : ℚ) = 2 ^ 52 := by
    rw [hmeq]
    norm_num
  rw [hm'] at nl
  have h₁ : (2 : ℚ) ^ (e + 51) < 2 ^ (E + 53) := by
    refine lt_trans ?_ hu
    rw [two_zpow_add, mul_comm]
    apply mul_lt_mul_of_pos_right _ hpos
    norm_num at nl ⊢
    linarith
  have := two_zpow_lt_iff.1 h₁
  omega

/-- There it is rounded one bit further, and carried. -/
theorem roundEven_twice (near : |v - (2 ^ 52 : Nat)| < (2 ^ 52 : Nat) / 2 ^ 54)
    (hv : v < 2 ^ 52) : roundEven (2 * v) = 2 * 4503599627370496 := by
  have nl := (abs_lt.1 near).1
  push_cast at nl
  apply roundEven_of_near
  · norm_num at nl ⊢
    linarith
  · rw [abs_lt]
    push_cast
    constructor
    · norm_num at nl ⊢
      linarith
    · norm_num at hv ⊢
      linarith

end

/-- What lies near a number of double precision is rounded to it. -/
theorem Ratio.toBinary64_of_near {ratio : Ratio} (hd : 0 < ratio.denominator) {negative : Bool}
    {m : Nat} {e : Int} (hm : m ≠ 0) (hc : (Binary64.finite negative m e).Canonical)
    (h : |ratio.value - m * 2 ^ e| < m * 2 ^ e / 2 ^ 54) :
    ratio.toBinary64 negative = .finite negative m e := by
  obtain ⟨hbits, hle, hge, hleast⟩ := hc
  rw [leastSignificand_eq] at hbits hleast
  have hpos := two_zpow_pos e
  have near := near_in_units h
  have hvalue : ratio.value = ratio.value / 2 ^ e * 2 ^ e := by
    rw [div_mul_cancel₀ _ hpos.ne']
  have hmpos : (1 : ℚ) ≤ m := by exact_mod_cast Nat.one_le_iff_ne_zero.2 hm
  have hvpos : 0 < ratio.value / 2 ^ e := by
    have nl := (abs_lt.1 near).1
    linarith
  have hn : ratio.numerator ≠ 0 := by
    intro h0
    have hzero := (Ratio.value_eq_zero_iff hd).2 h0
    rw [hzero, zero_div] at hvpos
    exact lt_irrefl 0 hvpos
  obtain ⟨hl, hu⟩ := Ratio.binaryExponent_spec hn hd
  generalize hE : ratio.binaryExponent = E at hl hu
  rw [hvalue] at hl hu
  have notAbove : E ≤ e := exponent_le_of_near hbits near hl
  unfold Ratio.toBinary64
  rw [if_neg hn]
  simp only [hE, Ratio.round_scale hd]
  by_cases hsame : max E (-1074) = e
  · -- Rounded at the exponent of the number.
    have hround := roundEven_of_near_significand hvpos.le hbits near
    have hne : m ≠ 2 * leastSignificand := by
      rw [leastSignificand_eq]
      omega
    rw [hsame, hround]
    simp only [hne, if_false]
    rw [if_neg (by omega)]
  · -- Just below a power of two: rounded one bit further, and carried.
    have hmle : 2 ^ 52 ≤ m := by
      by_contra hlt
      have := hleast (by omega)
      omega
    obtain ⟨rfl, hE', hvlt⟩ := power_of_near hmle near hu (by omega)
    have hmax : max E (-1074) = e - 1 := by omega
    have htwice : ratio.value / 2 ^ (e - 1) = 2 * (ratio.value / 2 ^ e) := by
      rw [zpow_sub_one₀ (by norm_num)]
      field_simp
    have hround : roundEven (ratio.value / 2 ^ (e - 1)) = 2 * leastSignificand := by
      rw [htwice, leastSignificand_eq]
      exact roundEven_twice near hvlt
    rw [hmax, hround]
    simp only [if_true]
    rw [if_neg (by omega), leastSignificand_eq]
    congr 1
    omega

end TemplateAnalysis.Decimal
