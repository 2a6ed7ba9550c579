/-! # Double precision numbers

    A number that is not an integer is kept as the nearest number of double
    precision: a significand of at most 53 bits times a power of two from
    2⁻¹⁰⁷⁴ to 2⁹⁷¹, an infinity, or no number at all. All arithmetic here is
    exact, on natural numbers.
-/

namespace TemplateAnalysis.Decimal

/-- A number of double precision. The significand of a finite number has 53
    bits, unless the exponent is the least there is. -/
inductive Binary64
  | finite (negative : Bool) (significand : Nat) (exponent : Int)
  | infinity (negative : Bool)
  | nan
  deriving DecidableEq, Repr

/-- A fraction of natural numbers, the denominator of which is not 0. -/
structure Ratio where
  numerator : Nat
  denominator : Nat
  deriving DecidableEq, Repr

/-- A ratio times a power of a base. -/
def Ratio.scale (ratio : Ratio) (base : Nat) (exponent : Int) : Ratio :=
  if 0 ≤ exponent then ⟨ratio.numerator * base.pow exponent.toNat, ratio.denominator⟩
  else ⟨ratio.numerator, ratio.denominator * base.pow (-exponent).toNat⟩

/-- The nearest natural number. Of two that are equally near the even one. -/
def Ratio.round (ratio : Ratio) : Nat :=
  let quotient := ratio.numerator / ratio.denominator
  let twice := 2 * (ratio.numerator % ratio.denominator)
  if twice < ratio.denominator then quotient
  else if ratio.denominator < twice then quotient + 1
  else if quotient % 2 = 0 then quotient else quotient + 1

/-- The least number of 53 bits, 2⁵². -/
def leastSignificand : Nat :=
  4503599627370496

/-- The exponent at which a ratio that is not 0 has 53 bits before the point. -/
def Ratio.binaryExponent (ratio : Ratio) : Int :=
  let guess : Int := (ratio.numerator.log2 : Int) - (ratio.denominator.log2 : Int) - 52
  let scaled := ratio.scale 2 (-guess)
  if scaled.numerator < leastSignificand * scaled.denominator then guess - 1 else guess

/-- The number of double precision that is nearest to a ratio. -/
def Ratio.toBinary64 (negative : Bool) (ratio : Ratio) : Binary64 :=
  if ratio.numerator = 0 then .finite negative 0 (-1074)
  else
    let exponent := max ratio.binaryExponent (-1074)
    let significand := (ratio.scale 2 (-exponent)).round
    let carried := significand = 2 * leastSignificand
    let exponent' := if carried then exponent + 1 else exponent
    if 971 < exponent' then .infinity negative
    else .finite negative (if carried then leastSignificand else significand) exponent'

/-- How many decimal digits a number has: none when it is 0. -/
def digitCount (n : Nat) : Nat :=
  if n = 0 then 0 else digitCount (n / 10) + 1

/-- The number of double precision that is nearest to `digits` times a power of
    ten. Far beyond the range of double precision it is infinite or 0. -/
def Binary64.ofDecimal (negative : Bool) (digits : Nat) (exponent : Int) : Binary64 :=
  let magnitude : Int := digitCount digits + exponent
  if digits = 0 || magnitude < -400 then .finite negative 0 (-1074)
  else if 400 < magnitude then .infinity negative
  else (Ratio.scale ⟨digits, 1⟩ 10 exponent).toBinary64 negative

/-- The value of a finite number without its sign. -/
def magnitude (significand : Nat) (exponent : Int) : Ratio :=
  Ratio.scale ⟨significand, 1⟩ 2 exponent

end TemplateAnalysis.Decimal
