import TemplateAnalysis.Json.Parser
import TemplateAnalysis.Json.Printer
import TemplateAnalysis.Proofs.Decimal.Shortest

/-! # Numbers are read as they were written

    A written number is digits, perhaps a point and more digits, and perhaps an
    exponent. Such a text is taken apart at the same places again, whatever
    stands behind it, as long as it does not go on with the number:

    * **`unsignedNumber?_append`**: what is read of such a text;
    * **`unsignedNumber?_writeMagnitude`**: a number of double precision comes
      back with its significand and exponent, in any of the forms it can have.
-/

namespace TemplateAnalysis.Json

open Decimal Markup

/-! ## Digits -/

/-- A text of digits. -/
def AllDigits (digits : List Char) : Prop :=
  ∀ c ∈ digits, c.isDigit = true

/-- A text that does not go on with digits. -/
def NoDigit (rest : List Char) : Prop :=
  ∀ c, rest.head? = some c → c.isDigit = false

theorem AllDigits.append {before after : List Char} (hb : AllDigits before)
    (ha : AllDigits after) : AllDigits (before ++ after) := by
  intro c hc
  rcases List.mem_append.1 hc with hc | hc
  · exact hb c hc
  · exact ha c hc

theorem allDigits_zeros (n : Nat) : AllDigits (List.replicate n '0') := by
  intro c hc
  rw [(List.mem_replicate.1 hc).2]
  rfl

theorem leadingDigits_append {digits rest : List Char} (h : AllDigits digits)
    (hr : NoDigit rest) : leadingDigits (digits ++ rest) = digits := by
  have hrest : rest.takeWhile Char.isDigit = [] := by
    cases rest with
    | nil => rfl
    | cons c cs => rw [List.takeWhile_cons_of_neg (by simp [hr c rfl])]
  unfold leadingDigits
  rw [List.takeWhile_append_of_pos h, hrest, List.append_nil]

theorem numberOfDigits_foldl (digits : List Char) (n : Nat) :
    digits.foldl (fun n c => n * 10 + (hexValue? c).getD 0) n =
      n * 10 ^ digits.length + numberOfDigits 10 digits := by
  induction digits generalizing n with
  | nil => simp [numberOfDigits]
  | cons c rest ih =>
    have hd : numberOfDigits 10 (c :: rest) =
        rest.foldl (fun n c => n * 10 + (hexValue? c).getD 0) (0 * 10 + (hexValue? c).getD 0) :=
      rfl
    rw [List.foldl_cons, ih, hd, ih, List.length_cons, Nat.pow_succ]
    ring

/-- Digits in front count for more the more digits follow. -/
theorem numberOfDigits_append (before after : List Char) :
    numberOfDigits 10 (before ++ after) =
      numberOfDigits 10 before * 10 ^ after.length + numberOfDigits 10 after := by
  have h := numberOfDigits_foldl after (numberOfDigits 10 before)
  rw [← h]
  show (before ++ after).foldl _ 0 = _
  rw [List.foldl_append]
  rfl

theorem numberOfDigits_zeros (n : Nat) : numberOfDigits 10 (List.replicate n '0') = 0 := by
  induction n with
  | zero => rfl
  | succ n ih =>
    have zero : numberOfDigits 10 ['0'] = 0 := rfl
    rw [List.replicate_succ, ← List.singleton_append, numberOfDigits_append, ih, zero,
      Nat.zero_mul]

theorem hexValue?_digitChar {n : Nat} (h : n < 10) : hexValue? n.digitChar = some n := by
  revert n
  decide

/-! ## Natural numbers -/

theorem allDigits_naturalDigits (n : Nat) : AllDigits (naturalDigits n) :=
  fun _ hc => Nat.isDigit_of_mem_toDigits (by decide) (by decide) hc

theorem naturalDigits_ne_nil (n : Nat) : naturalDigits n ≠ [] :=
  Nat.toDigits_ne_nil

theorem naturalDigits_eq (n : Nat) :
    naturalDigits n =
      if n < 10 then [n.digitChar] else naturalDigits (n / 10) ++ [(n % 10).digitChar] :=
  Nat.toDigits_eq_if (by decide)

/-- The digits of a number stand for it. -/
theorem numberOfDigits_naturalDigits (n : Nat) : numberOfDigits 10 (naturalDigits n) = n := by
  induction n using Nat.strongRecOn with
  | ind n ih =>
    rw [naturalDigits_eq]
    by_cases h : n < 10
    · rw [if_pos h]
      simp [numberOfDigits, hexValue?_digitChar h]
    · have hd : numberOfDigits 10 [(n % 10).digitChar] = n % 10 := by
        simp [numberOfDigits, hexValue?_digitChar (Nat.mod_lt n (by decide))]
      rw [if_neg h, numberOfDigits_append, ih (n / 10) (by omega), hd]
      simp only [List.length_singleton, Nat.pow_one]
      omega

/-- A number that is not 0 does not begin with a zero. -/
theorem head?_naturalDigits {n : Nat} (h : n ≠ 0) : (naturalDigits n).head? ≠ some '0' := by
  induction n using Nat.strongRecOn with
  | ind n ih =>
    rw [naturalDigits_eq]
    by_cases hn : n < 10
    · rw [if_pos hn]
      have : ∀ d, d < 10 → d ≠ 0 → Nat.digitChar d ≠ '0' := by decide
      simpa using this n hn h
    · rw [if_neg hn, List.head?_append_of_ne_nil _ (naturalDigits_ne_nil _)]
      exact ih (n / 10) (by omega) (by omega)

/-! ## Exponents -/

/-- An exponent as it is written. -/
def powerText (power : Int) : List Char :=
  'e' :: (if power < 0 then '-' else '+') ::
    (if (naturalDigits power.natAbs).length < 2 then '0' :: naturalDigits power.natAbs
      else naturalDigits power.natAbs)

theorem exponentPart_powerText (power : Int) {rest : List Char} (hr : NoDigit rest) :
    exponentPart (powerText power ++ rest) = (power, (powerText power).length) := by
  generalize hd : (if (naturalDigits power.natAbs).length < 2
    then '0' :: naturalDigits power.natAbs else naturalDigits power.natAbs) = digits
  have all : AllDigits digits := by
    rw [← hd]
    split
    · intro c hc
      rcases List.mem_cons.1 hc with rfl | hc
      · rfl
      · exact allDigits_naturalDigits _ c hc
    · exact allDigits_naturalDigits _
  have size : numberOfDigits 10 digits = power.natAbs := by
    rw [← hd]
    split
    · rw [← List.singleton_append, numberOfDigits_append, numberOfDigits_naturalDigits]
      simp [numberOfDigits, hexValue?]
    · exact numberOfDigits_naturalDigits _
  have hne : digits.isEmpty = false := by
    rw [← hd]
    split
    · rfl
    · simp [naturalDigits_ne_nil]
  have hp : powerText power = 'e' :: (if power < 0 then '-' else '+') :: digits := by
    rw [powerText, hd]
  rw [hp]
  by_cases hneg : power < 0
  · simp only [hneg, if_true, List.cons_append, exponentPart]
    simp only [beq_self_eq_true, Bool.true_or, if_true, Bool.or_true, List.length_singleton,
      List.drop_succ_cons, List.drop_zero, leadingDigits_append all hr, hne, size]
    simp [-Nat.cast_natAbs]
    omega
  · simp only [hneg, if_false, List.cons_append, exponentPart]
    simp only [beq_self_eq_true, Bool.true_or, if_true, List.length_singleton,
      List.drop_succ_cons, List.drop_zero, leadingDigits_append all hr, hne, size]
    simp [-Nat.cast_natAbs]
    omega

/-! ## The parts of a number -/

/-- The whole part of a number: digits, the first of which is no zero unless it
    is the only one. -/
def IsWhole (whole : List Char) : Prop :=
  whole = ['0'] ∨ (AllDigits whole ∧ whole ≠ [] ∧ whole.head? ≠ some '0')

/-- A fraction with its point, if there is one. -/
def pointed (fraction : List Char) : List Char :=
  if fraction = [] then [] else '.' :: fraction

/-- A text that does not go on with a number. -/
def NumberEnd (rest : List Char) : Prop :=
  ∀ c, rest.head? = some c → c.isDigit = false ∧ c ≠ '.' ∧ c ≠ 'e' ∧ c ≠ 'E'

theorem NumberEnd.noDigit {rest : List Char} (h : NumberEnd rest) : NoDigit rest :=
  fun c hc => (h c hc).1

theorem NumberEnd.head?_ne_point {rest : List Char} (h : NumberEnd rest) :
    rest.head? ≠ some '.' :=
  fun hc => (h '.' hc).2.1 rfl

theorem exponentPart_of_numberEnd {rest : List Char} (h : NumberEnd rest) :
    exponentPart rest = (0, 0) := by
  cases rest with
  | nil => rfl
  | cons c cs =>
    obtain ⟨-, -, he, hE⟩ := h c rfl
    simp [exponentPart, he, hE]

theorem IsWhole.ne_nil {whole : List Char} (h : IsWhole whole) : whole ≠ [] := by
  rcases h with rfl | ⟨_, hne, _⟩
  · simp
  · exact hne

/-- The whole part at the front of a text. -/
def wholeDigits (cs : List Char) : List Char :=
  match cs with
  | '0' :: _ => ['0']
  | _ => leadingDigits cs

theorem unsignedNumber?_eq (negative : Bool) (cs : List Char) :
    unsignedNumber? negative cs =
      if (wholeDigits cs).isEmpty then none
      else
        let behindWhole := cs.drop (wholeDigits cs).length
        let fraction := fractionDigits behindWhole
        let point := if fraction.isEmpty then 0 else 1
        let exponent := exponentPart (behindWhole.drop (fraction.length + point))
        let length := (wholeDigits cs).length + fraction.length + point + exponent.2
        let digits := numberOfDigits 10 (wholeDigits cs ++ fraction)
        if fraction.isEmpty && exponent.2 = 0 then
          some (.integer (if negative then -digits else digits), length)
        else
          some (.double (.ofDecimal negative digits (exponent.1 - fraction.length)), length) :=
  rfl

/-- The whole part is found again. -/
theorem IsWhole.read {whole rest : List Char} (h : IsWhole whole) (hr : NoDigit rest) :
    wholeDigits (whole ++ rest) = whole := by
  unfold wholeDigits
  rcases h with rfl | ⟨hd, hne, hz⟩
  · rfl
  · split
    · rename_i cs heq
      cases whole with
      | nil => contradiction
      | cons c more =>
        rw [List.cons_append] at heq
        obtain ⟨rfl, -⟩ := List.cons.inj heq
        exact absurd rfl hz
    · exact leadingDigits_append hd hr

theorem noDigit_pointed {fraction suffix : List Char} (hs : NoDigit suffix) :
    NoDigit (pointed fraction ++ suffix) := by
  unfold pointed
  split
  · exact hs
  · intro c hc
    obtain rfl : '.' = c := by simpa using hc
    rfl

theorem fractionDigits_pointed {fraction suffix : List Char} (hf : AllDigits fraction)
    (hs : NoDigit suffix) (hp : suffix.head? ≠ some '.') :
    fractionDigits (pointed fraction ++ suffix) = fraction := by
  unfold pointed
  split
  · rename_i h
    rw [h, List.nil_append]
    unfold fractionDigits
    split
    · simp at hp
    · rfl
  · exact leadingDigits_append hf hs

/-- **What is read of a number**: its whole part, its fraction, and what the text
    behind them says about the exponent. -/
theorem unsignedNumber?_append (negative : Bool) {whole fraction suffix : List Char}
    (hw : IsWhole whole) (hf : AllDigits fraction) (hs : NoDigit suffix)
    (hp : suffix.head? ≠ some '.') :
    unsignedNumber? negative (whole ++ (pointed fraction ++ suffix)) =
      if fraction.isEmpty && (exponentPart suffix).2 = 0 then
        some (.integer (if negative then -numberOfDigits 10 whole else numberOfDigits 10 whole),
          whole.length)
      else some (.double (.ofDecimal negative (numberOfDigits 10 (whole ++ fraction))
          ((exponentPart suffix).1 - fraction.length)),
        (whole ++ pointed fraction).length + (exponentPart suffix).2) := by
  have hwhole := hw.read (noDigit_pointed hs : NoDigit (pointed fraction ++ suffix))
  have hfraction := fractionDigits_pointed hf hs hp
  have hlength : (pointed fraction).length =
      fraction.length + (if fraction.isEmpty then 0 else 1) := by
    unfold pointed
    cases fraction <;> simp
  have hbehind : (pointed fraction ++ suffix).drop
      (fraction.length + (if fraction.isEmpty then 0 else 1)) = suffix := by
    rw [← hlength, List.drop_left]
  have hne : whole.isEmpty = false := by simp [hw.ne_nil]
  rw [unsignedNumber?_eq]
  simp only [hwhole, hne, List.drop_left, hfraction, hbehind]
  cases fraction with
  | nil =>
    by_cases he : (exponentPart suffix).2 = 0
    · simp [he]
    · simp [he, pointed]
  | cons c cs =>
    simp [pointed]
    omega

/-! ## Numbers of double precision -/

/-- The digits of a number that is not 0 are a whole part, also with zeros
    behind them. -/
theorem isWhole_naturalDigits {n : Nat} (h : n ≠ 0) (zeros : Nat) :
    IsWhole (naturalDigits n ++ List.replicate zeros '0') := by
  right
  refine ⟨(allDigits_naturalDigits n).append (allDigits_zeros zeros), ?_, ?_⟩
  · simp [naturalDigits_ne_nil]
  · rw [List.head?_append_of_ne_nil _ (naturalDigits_ne_nil n)]
    exact head?_naturalDigits h

/-- A fraction makes a number one of double precision. -/
theorem unsignedNumber?_fraction (negative : Bool) {whole fraction rest : List Char}
    (hw : IsWhole whole) (hf : AllDigits fraction) (hne : fraction ≠ []) (hr : NumberEnd rest) :
    unsignedNumber? negative (whole ++ '.' :: fraction ++ rest) =
      some (.double (.ofDecimal negative (numberOfDigits 10 (whole ++ fraction))
        (-(fraction.length : Int))), (whole ++ '.' :: fraction).length) := by
  have h := unsignedNumber?_append negative hw hf hr.noDigit hr.head?_ne_point
  have hpointed : pointed fraction = '.' :: fraction := if_neg hne
  have hempty : fraction.isEmpty = false := by simp [hne]
  rw [exponentPart_of_numberEnd hr, hpointed, ← List.append_assoc] at h
  rw [h]
  simp [hempty]

theorem numberOfDigits_naturalDigits_zeros (n zeros : Nat) :
    numberOfDigits 10 (naturalDigits n ++ List.replicate zeros '0') = n * 10 ^ zeros := by
  rw [numberOfDigits_append, numberOfDigits_naturalDigits, numberOfDigits_zeros,
    List.length_replicate, Nat.add_zero]

section

variable (negative : Bool) {n : Nat} {exponent : Int} {rest : List Char}

/-- All digits behind the point, with zeros before them. -/
theorem unsignedNumber?_small {zeros : Nat}
    (he : -((zeros + (naturalDigits n).length : Nat) : Int) = exponent) (hr : NumberEnd rest) :
    unsignedNumber? negative ('0' :: '.' :: List.replicate zeros '0' ++ naturalDigits n ++ rest) =
      some (.double (.ofDecimal negative n exponent),
        ('0' :: '.' :: List.replicate zeros '0' ++ naturalDigits n).length) := by
  have h := unsignedNumber?_fraction negative (.inl rfl)
    ((allDigits_zeros zeros).append (allDigits_naturalDigits n))
    (by simp [naturalDigits_ne_nil]) hr
  have hnumber : numberOfDigits 10
      (['0'] ++ (List.replicate zeros '0' ++ naturalDigits n)) = n := by
    rw [numberOfDigits_append, numberOfDigits_append, numberOfDigits_zeros,
      numberOfDigits_naturalDigits]
    simp [numberOfDigits, hexValue?]
  rw [hnumber, List.length_append, List.length_replicate, he] at h
  simpa using h

/-- All digits before the point, with zeros behind them. -/
theorem unsignedNumber?_large (hn : n ≠ 0) {zeros : Nat} (he : exponent = zeros)
    (hr : NumberEnd rest) :
    unsignedNumber? negative
        (naturalDigits n ++ List.replicate zeros '0' ++ ['.', '0'] ++ rest) =
      some (.double (.ofDecimal negative n exponent),
        (naturalDigits n ++ List.replicate zeros '0' ++ ['.', '0']).length) := by
  have h := unsignedNumber?_fraction negative (isWhole_naturalDigits hn zeros)
    (allDigits_zeros 1) (by simp) hr
  -- The digit behind the point makes the number ten times as large, and its
  -- exponent smaller by one.
  have hsame : Binary64.ofDecimal negative (n * 10 ^ zeros * 10) (-1) =
      Binary64.ofDecimal negative n exponent := by
    apply ofDecimal_congr
    · have : 0 < 10 ^ zeros := Nat.pow_pos (by decide)
      have := Nat.pos_of_ne_zero hn
      positivity
    · exact hn
    · unfold decimalValue
      rw [he, zpow_natCast, zpow_neg_one]
      push_cast
      field_simp
  have hnumber : numberOfDigits 10
      (naturalDigits n ++ List.replicate zeros '0' ++ List.replicate 1 '0') =
        n * 10 ^ zeros * 10 := by
    rw [numberOfDigits_append, numberOfDigits_naturalDigits_zeros, numberOfDigits_zeros]
    rfl
  rw [hnumber, List.length_replicate, Nat.cast_one, hsame] at h
  simpa using h

/-- The point among the digits. -/
theorem unsignedNumber?_between (hn : n ≠ 0) {whole : Nat} (hpos : 0 < whole)
    (hlt : whole < (naturalDigits n).length)
    (he : -(((naturalDigits n).length - whole : Nat) : Int) = exponent) (hr : NumberEnd rest) :
    unsignedNumber? negative
        ((naturalDigits n).take whole ++ '.' :: (naturalDigits n).drop whole ++ rest) =
      some (.double (.ofDecimal negative n exponent),
        ((naturalDigits n).take whole ++ '.' :: (naturalDigits n).drop whole).length) := by
  have hdigits := allDigits_naturalDigits n
  have hdrop : ((naturalDigits n).drop whole).length = (naturalDigits n).length - whole :=
    List.length_drop
  have hwhole : IsWhole ((naturalDigits n).take whole) := by
    right
    refine ⟨fun c hc => hdigits c (List.mem_of_mem_take hc), ?_, ?_⟩
    · rw [ne_eq, List.take_eq_nil_iff]
      simp only [naturalDigits_ne_nil, or_false]
      omega
    · rw [List.head?_take, if_neg (by omega)]
      exact head?_naturalDigits hn
  have h := unsignedNumber?_fraction negative hwhole
    (fun c hc => hdigits c (List.mem_of_mem_drop hc))
    (List.ne_nil_of_length_pos (by rw [hdrop]; omega)) hr
  rw [List.take_append_drop, numberOfDigits_naturalDigits, hdrop, he] at h
  exact h

/-- The written form with a point is read as the decimal that is written. -/
theorem unsignedNumber?_positional (hn : n ≠ 0) (exponent : Int) (hr : NumberEnd rest) :
    unsignedNumber? negative
        (positional (naturalDigits n) ((naturalDigits n).length + exponent) ++ rest) =
      some (.double (.ofDecimal negative n exponent),
        (positional (naturalDigits n) ((naturalDigits n).length + exponent)).length) := by
  generalize hpoint : ((naturalDigits n).length : Int) + exponent = point
  unfold positional
  by_cases hsmall : point ≤ 0
  · rw [if_pos hsmall]
    apply unsignedNumber?_small negative _ hr
    omega
  · rw [if_neg hsmall]
    by_cases hlarge : (naturalDigits n).length ≤ point.toNat
    · rw [if_pos hlarge]
      apply unsignedNumber?_large negative hn _ hr
      omega
    · rw [if_neg hlarge]
      apply unsignedNumber?_between negative hn _ _ _ hr
      · omega
      · omega
      · omega

end

theorem noDigit_powerText (power : Int) (rest : List Char) : NoDigit (powerText power ++ rest) := by
  intro c hc
  obtain rfl : 'e' = c := by simpa [powerText] using hc
  rfl

/-- The written form with an exponent is read as the decimal that is written. -/
theorem unsignedNumber?_scientific (negative : Bool) {n : Nat} (hn : n ≠ 0) (exponent : Int)
    {rest : List Char} (hr : NumberEnd rest) :
    unsignedNumber? negative
        (scientific (naturalDigits n) ((naturalDigits n).length + exponent - 1) ++ rest) =
      some (.double (.ofDecimal negative n exponent),
        (scientific (naturalDigits n) ((naturalDigits n).length + exponent - 1)).length) := by
  have hdigits := allDigits_naturalDigits n
  have hzero := head?_naturalDigits hn
  have hnumber := numberOfDigits_naturalDigits n
  generalize hpower : ((naturalDigits n).length : Int) + exponent - 1 = power
  cases hd : naturalDigits n with
  | nil => exact absurd hd (naturalDigits_ne_nil n)
  | cons first others =>
    rw [hd] at hdigits hzero hnumber hpower
    -- One digit stands before the point, all others behind it.
    have form : scientific (first :: others) power =
        [first] ++ (pointed others ++ powerText power) := by
      cases others with
      | nil => rfl
      | cons d more => rfl
    have hwhole : IsWhole [first] := by
      right
      refine ⟨fun c hc => hdigits c ?_, by simp, hzero⟩
      rw [List.mem_singleton.1 hc]
      exact List.mem_cons_self
    have h := unsignedNumber?_append negative hwhole
      (fun c hc => hdigits c (List.mem_cons_of_mem first hc)) (noDigit_powerText power rest)
      (by simp [powerText])
    have hpart := exponentPart_powerText power hr.noDigit
    have hexp : power - (others.length : Int) = exponent := by
      rw [List.length_cons] at hpower
      push_cast at hpower
      omega
    have hlen : ¬(powerText power).length = 0 := by simp [powerText]
    simp only [hpart, List.singleton_append, hnumber, hexp, hlen, decide_false, Bool.and_false,
      Bool.false_eq_true, if_false] at h
    rw [form]
    simp only [List.append_assoc, List.cons_append, List.nil_append] at h ⊢
    rw [h]
    simp
    omega

/-- **A number of double precision is read as it was written.** -/
theorem unsignedNumber?_writeMagnitude {negative : Bool} {m : Nat} {e : Int}
    (hc : (Binary64.finite negative m e).Canonical) {rest : List Char} (hr : NumberEnd rest) :
    unsignedNumber? negative (writeMagnitude m e ++ rest) =
      some (.double (.finite negative m e), (writeMagnitude m e).length) := by
  unfold writeMagnitude
  by_cases hm : m = 0
  · have he : e = -1074 := hc.2.2.2 (by rw [hm]; decide)
    have h := unsignedNumber?_fraction negative (.inl rfl) (allDigits_zeros 1) (by simp) hr
    rw [if_pos hm, hm, he]
    exact h
  · obtain ⟨hd, hread⟩ := ofDecimal_shortest hm hc
    rw [if_neg hm]
    simp only
    split
    · rw [unsignedNumber?_positional negative hd _ hr, hread]
    · rw [unsignedNumber?_scientific negative hd _ hr, hread]

/-- An integer is read as it was written. -/
theorem unsignedNumber?_naturalDigits (negative : Bool) (n : Nat) {rest : List Char}
    (hr : NumberEnd rest) :
    unsignedNumber? negative (naturalDigits n ++ rest) =
      some (.integer (if negative then -n else n), (naturalDigits n).length) := by
  have hwhole : IsWhole (naturalDigits n) := by
    by_cases hn : n = 0
    · left
      rw [hn]
      rfl
    · have h := isWhole_naturalDigits hn 0
      rwa [List.replicate_zero, List.append_nil] at h
  have h := @unsignedNumber?_append negative (naturalDigits n) [] rest hwhole
    (fun _ hc => absurd hc List.not_mem_nil) hr.noDigit hr.head?_ne_point
  rw [exponentPart_of_numberEnd hr, numberOfDigits_naturalDigits] at h
  simpa [pointed] using h

end TemplateAnalysis.Json
