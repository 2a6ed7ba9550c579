import TemplateAnalysis.Proofs.Decimal.Rounding

/-! # Shortest decimals read back

    The decimal that a number of double precision is written with stands for
    the number again:

    * **`ofDecimal_congr`**: a decimal is read by its value, however its digits
      and its exponent are chosen;
    * **`decimalExponent_spec`**: the power of ten above a number is found;
    * **`ofDecimal_shortest`**: seventeen digits are always enough, and the
      decimal that is found reads back.
-/

namespace TemplateAnalysis.Decimal

/-! ## Powers of ten -/

theorem ten_zpow_pos (e : Int) : (0 : ℚ) < 10 ^ e := by
  positivity

theorem ten_zpow_lt_iff {a b : Int} : (10 : ℚ) ^ a < 10 ^ b ↔ a < b :=
  zpow_lt_zpow_iff_right₀ (by norm_num)

theorem ten_zpow_add (a b : Int) : (10 : ℚ) ^ (a + b) = 10 ^ a * 10 ^ b :=
  zpow_add₀ (by norm_num) a b

/-- A number with so many digits lies between two powers of ten. -/
theorem digitCount_spec {n : Nat} (h : n ≠ 0) :
    10 ^ (digitCount n - 1) ≤ n ∧ n < 10 ^ digitCount n ∧ 1 ≤ digitCount n := by
  induction n using Nat.strongRecOn with
  | ind n ih =>
    have step : digitCount n = digitCount (n / 10) + 1 := by
      rw [digitCount, if_neg h]
    by_cases hsmall : n < 10
    · have hone : digitCount n = 1 := by
        rw [step, Nat.div_eq_of_lt hsmall, digitCount, if_pos rfl]
      rw [hone]
      refine ⟨?_, ?_, Nat.le_refl 1⟩
      · show 1 ≤ n
        omega
      · show n < 10
        exact hsmall
    · obtain ⟨hl, hu, hone⟩ := ih (n / 10) (by omega) (by omega)
      rw [step, Nat.add_sub_cancel]
      refine ⟨?_, ?_, by omega⟩
      · obtain ⟨count, hc⟩ : ∃ count, digitCount (n / 10) = count + 1 :=
          ⟨digitCount (n / 10) - 1, by omega⟩
        rw [hc, Nat.add_sub_cancel] at hl
        rw [hc, Nat.pow_succ]
        omega
      · rw [Nat.pow_succ]
        omega

/-! ## Decimals by their values -/

/-- The number that a decimal stands for. -/
def decimalValue (digits : Nat) (exponent : Int) : ℚ :=
  digits * 10 ^ exponent

/-- The power of ten just above a decimal. -/
theorem decimalValue_bounds {digits : Nat} (h : digits ≠ 0) (exponent : Int) :
    (10 : ℚ) ^ (digitCount digits + exponent - 1) ≤ decimalValue digits exponent ∧
      decimalValue digits exponent < 10 ^ (digitCount digits + exponent) := by
  obtain ⟨hl, hu, hone⟩ := digitCount_spec h
  have hpos := ten_zpow_pos exponent
  unfold decimalValue
  constructor
  · have hcast : ((10 ^ (digitCount digits - 1) : Nat) : ℚ) ≤ digits := by exact_mod_cast hl
    push_cast at hcast
    rw [← zpow_natCast, Nat.cast_sub hone] at hcast
    rw [show (digitCount digits : Int) + exponent - 1 =
      ((digitCount digits : Int) - ((1 : Nat) : Int)) + exponent by push_cast; omega, ten_zpow_add]
    exact mul_le_mul_of_nonneg_right hcast hpos.le
  · have hcast : (digits : ℚ) < ((10 ^ digitCount digits : Nat) : ℚ) := by exact_mod_cast hu
    push_cast at hcast
    rw [← zpow_natCast] at hcast
    rw [ten_zpow_add]
    exact mul_lt_mul_of_pos_right hcast hpos

theorem value_scale_decimal (digits : Nat) (exponent : Int) :
    (Ratio.scale ⟨digits, 1⟩ 10 exponent).value = decimalValue digits exponent := by
  rw [Ratio.value_scale (by norm_num)]
  simp [Ratio.value, decimalValue]

theorem denominator_scale_decimal (digits : Nat) (exponent : Int) :
    0 < (Ratio.scale ⟨digits, 1⟩ 10 exponent).denominator :=
  Ratio.denominator_scale Nat.one_pos (by norm_num) exponent

/-- A decimal is read by its value. -/
theorem ofDecimal_congr {digits others : Nat} {exponent power : Int} (h : digits ≠ 0)
    (h' : others ≠ 0) (hv : decimalValue digits exponent = decimalValue others power)
    (negative : Bool) :
    Binary64.ofDecimal negative digits exponent = Binary64.ofDecimal negative others power := by
  obtain ⟨hl, hu⟩ := decimalValue_bounds h exponent
  obtain ⟨hl', hu'⟩ := decimalValue_bounds h' power
  have hsize : (digitCount digits : Int) + exponent = digitCount others + power := by
    have h₁ := ten_zpow_lt_iff.1 (lt_of_le_of_lt hl (hv ▸ hu'))
    have h₂ := ten_zpow_lt_iff.1 (lt_of_le_of_lt hl' (hv ▸ hu))
    omega
  have hratio := Ratio.toBinary64_congr (denominator_scale_decimal digits exponent)
    (denominator_scale_decimal others power)
    (by rw [value_scale_decimal, value_scale_decimal, hv]) negative
  unfold Binary64.ofDecimal
  simp only [h, h', hsize, hratio]

theorem canonical_ofDecimal (negative : Bool) (digits : Nat) (exponent : Int) :
    (Binary64.ofDecimal negative digits exponent).Canonical := by
  unfold Binary64.ofDecimal
  simp only
  split
  · refine ⟨?_, ?_, ?_, ?_⟩ <;> simp [leastSignificand]
  · split
    · trivial
    · exact Ratio.canonical_toBinary64 (denominator_scale_decimal digits exponent) negative

/-- The number with another sign. -/
def Binary64.withSign (negative : Bool) : Binary64 → Binary64
  | .finite _ significand exponent => .finite negative significand exponent
  | .infinity _ => .infinity negative
  | .nan => .nan

/-- The sign is read on its own. -/
theorem ofDecimal_withSign (negative : Bool) (digits : Nat) (exponent : Int) :
    Binary64.ofDecimal negative digits exponent =
      (Binary64.ofDecimal false digits exponent).withSign negative := by
  unfold Binary64.ofDecimal Ratio.toBinary64
  simp only [apply_ite (Binary64.withSign negative)]
  rfl

/-! ## Numbers by their values -/

/-- The value of a finite number without its sign. -/
def numberValue (significand : Nat) (exponent : Int) : ℚ :=
  significand * 2 ^ exponent

theorem denominator_magnitude (m : Nat) (e : Int) : 0 < (magnitude m e).denominator :=
  Ratio.denominator_scale Nat.one_pos (by norm_num) e

theorem value_magnitude (m : Nat) (e : Int) : (magnitude m e).value = numberValue m e := by
  unfold magnitude numberValue
  rw [Ratio.value_scale (by norm_num)]
  simp [Ratio.value]

theorem numberValue_pos {m : Nat} (h : m ≠ 0) (e : Int) : 0 < numberValue m e := by
  have : (0 : ℚ) < m := by exact_mod_cast Nat.pos_of_ne_zero h
  exact mul_pos this (two_zpow_pos e)

/-- A number lies between two powers of two. -/
theorem numberValue_bounds {m : Nat} (h : m ≠ 0) (e : Int) :
    (2 : ℚ) ^ ((m.log2 : Int) + e) ≤ numberValue m e ∧
      numberValue m e < 2 ^ ((m.log2 : Int) + e + 1) := by
  obtain ⟨hl, hu⟩ := two_zpow_log2 h
  have hpos := two_zpow_pos e
  unfold numberValue
  constructor
  · rw [two_zpow_add]
    exact mul_le_mul_of_nonneg_right hl hpos.le
  · rw [show (m.log2 : Int) + e + 1 = (m.log2 : Int) + 1 + e by omega, two_zpow_add]
    exact mul_lt_mul_of_pos_right hu hpos

/-- The binary magnitude of a number of double precision. -/
theorem log2_add_bounds {negative : Bool} {m : Nat} {e : Int} (hm : m ≠ 0)
    (hc : (Binary64.finite negative m e).Canonical) :
    -1074 ≤ (m.log2 : Int) + e ∧ (m.log2 : Int) + e ≤ 1023 := by
  obtain ⟨hbits, hle, hge, -⟩ := hc
  rw [leastSignificand_eq] at hbits
  have : m.log2 < 53 := (Nat.log2_lt hm).2 (by omega)
  omega

/-! ## The power of ten above a number -/

/-- Is a ratio below a power of ten? -/
theorem scaled_lt_iff {ratio : Ratio} (hd : 0 < ratio.denominator) (guess : Int) :
    (ratio.scale 10 (-guess)).numerator < (ratio.scale 10 (-guess)).denominator ↔
      ratio.value < 10 ^ guess := by
  have hsd := Ratio.denominator_scale hd (show 0 < 10 by norm_num) (-guess)
  have hsd' : (0 : ℚ) < (ratio.scale 10 (-guess)).denominator := by exact_mod_cast hsd
  have hv := @Ratio.value_scale ratio 10 (by norm_num) (-guess)
  have hpos := ten_zpow_pos guess
  rw [← Nat.cast_lt (α := ℚ), ← div_lt_one hsd']
  show (ratio.scale 10 (-guess)).value < 1 ↔ _
  rw [hv, zpow_neg, ← div_eq_mul_inv]
  push_cast
  rw [div_lt_one hpos]

/-- The power of ten is found when the guess is not above it, and not too far
    below. -/
theorem decimalExponent_spec {ratio : Ratio} (hd : 0 < ratio.denominator) (fuel : Nat)
    {guess : Int} (hl : (10 : ℚ) ^ (guess - 1) ≤ ratio.value)
    (hu : ratio.value < 10 ^ (guess + fuel)) :
    (10 : ℚ) ^ (decimalExponent ratio guess fuel - 1) ≤ ratio.value ∧
      ratio.value < 10 ^ decimalExponent ratio guess fuel := by
  induction fuel generalizing guess with
  | zero =>
    rw [decimalExponent]
    rw [Nat.cast_zero, add_zero] at hu
    exact ⟨hl, hu⟩
  | succ fuel ih =>
    rw [decimalExponent]
    simp only [scaled_lt_iff hd]
    by_cases h : ratio.value < 10 ^ guess
    · rw [if_pos h]
      exact ⟨hl, h⟩
    · rw [if_neg h]
      apply ih
      · rw [add_sub_cancel_right]
        exact not_lt.1 h
      · rw [show guess + 1 + (fuel : Int) = guess + ((fuel + 1 : Nat) : Int) by push_cast; omega]
        exact hu

/-- The first guess of the power of ten above a number of a binary magnitude. -/
def firstGuess (magnitude : Int) : Int :=
  magnitude * 30103 / 100000 - 1

/-- The guess against the powers of two, cleared of all denominators. -/
def guessFits (offset : Nat) : Bool :=
  let magnitude : Int := offset - 1074
  let guess := firstGuess magnitude
  10 ^ (guess - 1).toNat * 2 ^ (-magnitude).toNat ≤
      2 ^ magnitude.toNat * 10 ^ (-(guess - 1)).toNat &&
    2 ^ (magnitude + 1).toNat * 10 ^ (-(guess + 4)).toNat ≤
      10 ^ (guess + 4).toNat * 2 ^ (-(magnitude + 1)).toNat

/-- The guess fits for all magnitudes of numbers of double precision. -/
theorem guessFits_all : ∀ offset, offset < 2098 → guessFits offset = true := by
  decide +kernel

/-- Powers are compared with their denominators cleared. -/
theorem zpow_le_zpow_of_cleared {x y : Nat} (hx : 0 < x) (hy : 0 < y) {a b : Int}
    (h : x ^ a.toNat * y ^ (-b).toNat ≤ y ^ b.toNat * x ^ (-a).toNat) :
    (x : ℚ) ^ a ≤ (y : ℚ) ^ b := by
  have split : ∀ {z : Nat}, 0 < z → ∀ c : Int,
      (z : ℚ) ^ c = (z : ℚ) ^ c.toNat / (z : ℚ) ^ (-c).toNat := by
    intro z hz c
    have hne : (z : ℚ) ≠ 0 := by exact_mod_cast hz.ne'
    rw [← zpow_natCast, ← zpow_natCast, ← zpow_sub₀ hne]
    congr 1
    omega
  have hx' : (0 : ℚ) < (x : ℚ) ^ (-a).toNat := by exact_mod_cast Nat.pow_pos hx
  have hy' : (0 : ℚ) < (y : ℚ) ^ (-b).toNat := by exact_mod_cast Nat.pow_pos hy
  rw [split hx, split hy, div_le_div_iff₀ hx' hy']
  exact_mod_cast h

/-- The guess is not above the power of ten, and less than four below it. -/
theorem firstGuess_spec {magnitude : Int} (hl : -1074 ≤ magnitude) (hu : magnitude ≤ 1023) :
    (10 : ℚ) ^ (firstGuess magnitude - 1) ≤ 2 ^ magnitude ∧
      (2 : ℚ) ^ (magnitude + 1) ≤ 10 ^ (firstGuess magnitude + 4) := by
  have h := guessFits_all (magnitude + 1074).toNat (by omega)
  have hoffset : ((magnitude + 1074).toNat : Int) - 1074 = magnitude := by omega
  unfold guessFits at h
  simp only [hoffset, Bool.and_eq_true, decide_eq_true_eq] at h
  exact ⟨by exact_mod_cast zpow_le_zpow_of_cleared (by norm_num) (by norm_num) h.1,
    by exact_mod_cast zpow_le_zpow_of_cleared (by norm_num) (by norm_num) h.2⟩

/-- The power of ten above a number of double precision. -/
def powerAbove (significand : Nat) (exponent : Int) : Int :=
  decimalExponent (magnitude significand exponent)
    (firstGuess ((significand.log2 : Int) + exponent)) 4

theorem powerAbove_spec {negative : Bool} {m : Nat} {e : Int} (hm : m ≠ 0)
    (hc : (Binary64.finite negative m e).Canonical) :
    (10 : ℚ) ^ (powerAbove m e - 1) ≤ numberValue m e ∧
      numberValue m e < 10 ^ powerAbove m e := by
  obtain ⟨hlow, hhigh⟩ := log2_add_bounds hm hc
  obtain ⟨gl, gu⟩ := firstGuess_spec hlow hhigh
  obtain ⟨bl, bu⟩ := numberValue_bounds hm e
  have h := decimalExponent_spec (denominator_magnitude m e) 4
    (show (10 : ℚ) ^ (firstGuess ((m.log2 : Int) + e) - 1) ≤ (magnitude m e).value by
      rw [value_magnitude]
      exact le_trans gl bl)
    (by
      rw [value_magnitude]
      exact lt_of_lt_of_le bu gu)
  rw [value_magnitude] at h
  exact h

/-! ## Decimals that read back -/

theorem readsAs_iff (decimal : Digits) (m : Nat) (e : Int) :
    decimal.readsAs m e = true ↔
      Binary64.ofDecimal false decimal.digits decimal.exponent = .finite false m e := by
  unfold Digits.readsAs
  rw [decide_eq_true_eq]

/-- A decimal that is tried reads back when it is taken. -/
theorem readsAs_of_decimalOf? {m : Nat} {e above : Int} {count : Nat} {decimal : Digits}
    (h : decimalOf? m e above count = some decimal) : decimal.readsAs m e = true := by
  unfold decimalOf? at h
  simp only at h
  generalize hs : (magnitude m e).scale 10 (-(above - count)) = scaled at h
  split at h
  · -- Rounding gives one of the two.
    rename_i hb hn
    obtain rfl := Option.some.inj h
    unfold Ratio.round
    simp only
    split
    · exact hb
    · split
      · exact hn
      · split
        · exact hb
        · exact hn
  · rename_i hb hn
    obtain rfl := Option.some.inj h
    exact hb
  · rename_i hb hn
    obtain rfl := Option.some.inj h
    exact hn
  · contradiction

/-- Decimals that are taken for 0 are below all numbers. -/
theorem least_decimal : (10 : ℚ) ^ (-401 : Int) ≤ 2 ^ (-1075 : Int) :=
  @zpow_le_zpow_of_cleared 10 2 (by norm_num) (by norm_num) (-401) (-1075) (by decide +kernel)

/-- Decimals that are taken for infinite are above all numbers. -/
theorem greatest_decimal : (2 : ℚ) ^ (1025 : Int) ≤ 10 ^ (400 : Int) :=
  @zpow_le_zpow_of_cleared 2 10 (by norm_num) (by norm_num) 1025 400 (by decide +kernel)

/-- A decimal near a number of double precision reads back as it. -/
theorem ofDecimal_of_near {m : Nat} {e : Int} (hm : m ≠ 0)
    (hc : (Binary64.finite false m e).Canonical) {digits : Nat} {exponent : Int}
    (hd : digits ≠ 0)
    (h : |decimalValue digits exponent - numberValue m e| < numberValue m e / 2 ^ 54) :
    Binary64.ofDecimal false digits exponent = .finite false m e := by
  have hpos := numberValue_pos hm e
  obtain ⟨hlow, hhigh⟩ := log2_add_bounds hm hc
  obtain ⟨bl, bu⟩ := numberValue_bounds hm e
  obtain ⟨dl, du⟩ := decimalValue_bounds hd exponent
  obtain ⟨nl, nu⟩ := abs_lt.1 h
  norm_num at nl nu
  -- The decimal is in the range in which decimals are rounded at all.
  have hnotSmall : ¬(digitCount digits : Int) + exponent < -400 := by
    intro hlt
    have h₁ : decimalValue digits exponent < 2 ^ (-1075 : Int) :=
      calc decimalValue digits exponent < 10 ^ ((digitCount digits : Int) + exponent) := du
        _ ≤ 10 ^ (-401 : Int) := zpow_le_zpow_right₀ (by norm_num) (by omega)
        _ ≤ 2 ^ (-1075 : Int) := least_decimal
    have h₂ : (2 : ℚ) ^ (-1075 : Int) * 2 ≤ numberValue m e := by
      rw [← zpow_add_one₀ (by norm_num)]
      exact le_trans (two_zpow_le_iff.2 (by omega)) bl
    generalize (2 : ℚ) ^ (-1075 : Int) = bound at h₁ h₂
    linarith
  have hnotLarge : ¬400 < (digitCount digits : Int) + exponent := by
    intro hlt
    have h₁ : (2 : ℚ) ^ (1025 : Int) ≤ decimalValue digits exponent :=
      calc (2 : ℚ) ^ (1025 : Int) ≤ 10 ^ (400 : Int) := greatest_decimal
        _ ≤ 10 ^ ((digitCount digits : Int) + exponent - 1) :=
          zpow_le_zpow_right₀ (by norm_num) (by omega)
        _ ≤ decimalValue digits exponent := dl
    have h₂ : numberValue m e * 2 ≤ 2 ^ (1025 : Int) := by
      rw [show (1025 : Int) = 1024 + 1 by norm_num, zpow_add_one₀ (by norm_num)]
      apply mul_le_mul_of_nonneg_right _ (by norm_num)
      exact le_trans bu.le (two_zpow_le_iff.2 (by omega))
    generalize (2 : ℚ) ^ (1025 : Int) = bound at h₁ h₂
    linarith
  unfold Binary64.ofDecimal
  simp only [hd, hnotSmall, hnotLarge, decide_false, Bool.or_self, Bool.false_eq_true, if_false]
  apply Ratio.toBinary64_of_near (denominator_scale_decimal digits exponent) hm hc
  rw [value_scale_decimal]
  exact h

/-- Seventeen digits are enough. -/
theorem decimalOf?_seventeen {m : Nat} {e : Int} (hm : m ≠ 0)
    (hc : (Binary64.finite false m e).Canonical) :
    decimalOf? m e (powerAbove m e) 17 ≠ none := by
  obtain ⟨pl, pu⟩ := powerAbove_spec hm hc
  generalize powerAbove m e = above at pl pu
  have hunit := ten_zpow_pos (above - 17)
  have hpos := numberValue_pos hm e
  -- In units of the last place the number has seventeen digits before the point.
  generalize hq : numberValue m e / 10 ^ (above - 17) = q
  have hvalue : numberValue m e = q * 10 ^ (above - 17) := by
    rw [← hq, div_mul_cancel₀ _ hunit.ne']
  have hlarge : (10 : ℚ) ^ 16 ≤ q := by
    rw [← hq, le_div_iff₀ hunit, ← zpow_natCast, ← ten_zpow_add]
    rw [show ((16 : Nat) : Int) + (above - 17) = above - 1 by push_cast; omega]
    exact pl
  have hfloor : ((magnitude m e).scale 10 (-(above - 17))).numerator /
      ((magnitude m e).scale 10 (-(above - 17))).denominator = ⌊q⌋₊ := by
    rw [← Nat.floor_div_eq_div (K := ℚ)]
    show ⌊((magnitude m e).scale 10 (-(above - 17))).value⌋₊ = ⌊q⌋₊
    rw [Ratio.value_scale (by norm_num), value_magnitude, zpow_neg, ← div_eq_mul_inv]
    push_cast
    rw [hq]
  have hle : (⌊q⌋₊ : ℚ) ≤ q := Nat.floor_le (by linarith)
  have hlt : q < ⌊q⌋₊ + 1 := Nat.lt_floor_add_one q
  -- Whichever neighbour is no further than one half reads back.
  have near : ∀ digits : Nat, digits ≠ 0 → |(digits : ℚ) - q| ≤ 1 / 2 →
      (⟨digits, above - 17⟩ : Digits).readsAs m e = true := by
    intro digits hd h
    rw [readsAs_iff]
    apply ofDecimal_of_near hm hc hd
    have hfactor : decimalValue digits (above - 17) - numberValue m e =
        (digits - q) * 10 ^ (above - 17) := by
      rw [hvalue, decimalValue]
      ring
    rw [hfactor, abs_mul, abs_of_pos hunit, hvalue, mul_div_right_comm]
    apply mul_lt_mul_of_pos_right _ hunit
    refine lt_of_le_of_lt h ?_
    norm_num at hlarge ⊢
    linarith
  have hfloor_ne : ⌊q⌋₊ ≠ 0 := by
    intro h0
    rw [h0] at hlt
    norm_num at hlt hlarge
    linarith
  unfold decimalOf?
  simp only [Nat.cast_ofNat, hfloor]
  by_cases hhalf : q - ⌊q⌋₊ ≤ 1 / 2
  · have hb := near ⌊q⌋₊ hfloor_ne (by rw [abs_le]; constructor <;> linarith)
    rw [hb]
    split <;> simp_all
  · have hn := near (⌊q⌋₊ + 1) (Nat.succ_ne_zero _) (by
      rw [abs_le]
      push_cast
      constructor <;> linarith)
    rw [hn]
    split <;> simp_all

/-- The search ends with a decimal that reads back. -/
theorem readsAs_decimalFrom {m : Nat} {e above : Int} {limit : Nat}
    (h : decimalOf? m e above limit ≠ none) (fuel : Nat) {count : Nat} (hl : count ≤ limit)
    (hu : limit < count + fuel) : (decimalFrom m e above count fuel).readsAs m e = true := by
  induction fuel generalizing count with
  | zero => omega
  | succ fuel ih =>
    rw [decimalFrom]
    split
    · rename_i decimal hd
      exact readsAs_of_decimalOf? hd
    · rename_i hnone
      have hne : count ≠ limit := by
        rintro rfl
        exact h hnone
      exact ih (by omega) (by omega)

/-- Without the zeros at its end a decimal stands for the same number. -/
theorem trimZeros_spec (fuel : Nat) {decimal : Digits} (h : decimal.digits ≠ 0) :
    (decimal.trimZeros fuel).digits ≠ 0 ∧
      decimalValue (decimal.trimZeros fuel).digits (decimal.trimZeros fuel).exponent =
        decimalValue decimal.digits decimal.exponent := by
  induction fuel generalizing decimal with
  | zero => exact ⟨h, rfl⟩
  | succ fuel ih =>
    rw [Digits.trimZeros]
    by_cases hz : decimal.digits % 10 = 0
    · rw [if_pos (by simp [h, hz])]
      obtain ⟨hne, hv⟩ := @ih ⟨decimal.digits / 10, decimal.exponent + 1⟩ (by
        show decimal.digits / 10 ≠ 0
        omega)
      refine ⟨hne, hv.trans ?_⟩
      have hten : (decimal.digits : ℚ) = (decimal.digits / 10 : Nat) * 10 := by
        exact_mod_cast (by omega : decimal.digits = decimal.digits / 10 * 10)
      show decimalValue (decimal.digits / 10) (decimal.exponent + 1) = _
      unfold decimalValue
      rw [zpow_add_one₀ (by norm_num), hten]
      ring
    · rw [if_neg (by simp [hz])]
      exact ⟨h, rfl⟩

/-- **The shortest decimal reads back** as the number it is written for, with
    either sign. -/
theorem ofDecimal_shortest {negative : Bool} {m : Nat} {e : Int} (hm : m ≠ 0)
    (hc : (Binary64.finite negative m e).Canonical) :
    (shortest m e).digits ≠ 0 ∧
      Binary64.ofDecimal negative (shortest m e).digits (shortest m e).exponent =
        .finite negative m e := by
  have hc' : (Binary64.finite false m e).Canonical := hc
  have hreads := readsAs_decimalFrom (decimalOf?_seventeen hm hc') 17 (show 1 ≤ 17 by norm_num)
    (by norm_num)
  rw [readsAs_iff] at hreads
  have hne : (decimalFrom m e (powerAbove m e) 1 17).digits ≠ 0 := by
    intro h0
    rw [h0] at hreads
    simp only [Binary64.ofDecimal, decide_true, Bool.true_or, if_true,
      Binary64.finite.injEq] at hreads
    exact hm hreads.2.1.symm
  obtain ⟨hne', hv⟩ := trimZeros_spec 17 hne
  refine ⟨hne', ?_⟩
  show Binary64.ofDecimal negative ((decimalFrom m e (powerAbove m e) 1 17).trimZeros 17).digits
    ((decimalFrom m e (powerAbove m e) 1 17).trimZeros 17).exponent = _
  rw [ofDecimal_congr hne' hne hv, ofDecimal_withSign, hreads]
  rfl

end TemplateAnalysis.Decimal
