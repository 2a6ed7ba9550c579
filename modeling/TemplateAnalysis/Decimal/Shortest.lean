import TemplateAnalysis.Decimal.Binary64

/-! # Shortest decimals

    A number of double precision is written with the fewest digits that read
    back as the same number. Of several decimals with so few digits the
    nearest to the number is taken.
-/

namespace TemplateAnalysis.Decimal

/-- A decimal, `digits` times a power of ten. -/
structure Digits where
  digits : Nat
  exponent : Int
  deriving DecidableEq, Repr

/-- Does the decimal read back as this number? -/
def Digits.readsAs (decimal : Digits) (significand : Nat) (exponent : Int) : Bool :=
  Binary64.ofDecimal false decimal.digits decimal.exponent = .finite false significand exponent

/-- The power of ten just above a ratio: the least `k` with the ratio below
    10ᵏ, looked for from a guess on. -/
def decimalExponent (ratio : Ratio) (guess : Int) : Nat → Int
  | 0 => guess
  | fuel + 1 =>
    let scaled := ratio.scale 10 (-guess)
    if scaled.numerator < scaled.denominator then guess
    else decimalExponent ratio (guess + 1) fuel

/-- The decimal with so many digits that reads back as the number: the one
    below or the one above it, or the nearer when both do. -/
def decimalOf? (significand : Nat) (exponent : Int) (above : Int) (count : Nat) : Option Digits :=
  let unit := above - count
  let scaled := (magnitude significand exponent).scale 10 (-unit)
  let below : Digits := ⟨scaled.numerator / scaled.denominator, unit⟩
  let next : Digits := ⟨below.digits + 1, unit⟩
  match below.readsAs significand exponent, next.readsAs significand exponent with
  | true, true => some ⟨scaled.round, unit⟩
  | true, false => some below
  | false, true => some next
  | false, false => none

/-- The first decimal that reads back, with more and more digits. -/
def decimalFrom (significand : Nat) (exponent : Int) (above : Int) (count : Nat) :
    Nat → Digits
  | 0 => ⟨0, 0⟩
  | fuel + 1 =>
    match decimalOf? significand exponent above count with
    | some decimal => decimal
    | none => decimalFrom significand exponent above (count + 1) fuel

/-- The decimal without the zeros at its end. -/
def Digits.trimZeros (decimal : Digits) : Nat → Digits
  | 0 => decimal
  | fuel + 1 =>
    if decimal.digits ≠ 0 && decimal.digits % 10 = 0 then
      Digits.trimZeros ⟨decimal.digits / 10, decimal.exponent + 1⟩ fuel
    else decimal

/-- The shortest decimal that reads back as a finite number other than 0.
    Seventeen digits are always enough. -/
def shortest (significand : Nat) (exponent : Int) : Digits :=
  let guess : Int := (((significand.log2 : Int) + exponent) * 30103) / 100000 - 1
  let above := decimalExponent (magnitude significand exponent) guess 4
  (decimalFrom significand exponent above 1 17).trimZeros 17

/-- The digits of a natural number in base ten. -/
def naturalDigits (n : Nat) : List Char :=
  Nat.toDigits 10 n

/-- The written form of a decimal whose first digit stands for a power of ten
    from -4 to 15: with a point, and with a digit on either side of it. -/
def positional (digits : List Char) (point : Int) : List Char :=
  if point ≤ 0 then '0' :: '.' :: List.replicate (-point).toNat '0' ++ digits
  else if digits.length ≤ point.toNat then
    digits ++ List.replicate (point.toNat - digits.length) '0' ++ ['.', '0']
  else digits.take point.toNat ++ '.' :: digits.drop point.toNat

/-- The written form of any other decimal: one digit before the point, no point
    when it is the only one, and an exponent of two digits or more. -/
def scientific (digits : List Char) (exponent : Int) : List Char :=
  let mantissa := match digits with
    | first :: d :: rest => first :: '.' :: d :: rest
    | _ => digits
  let power := naturalDigits exponent.natAbs
  mantissa ++ 'e' :: (if exponent < 0 then '-' else '+') ::
    (if power.length < 2 then '0' :: power else power)

/-- The written form of a finite number without its sign. -/
def writeMagnitude (significand : Nat) (exponent : Int) : List Char :=
  if significand = 0 then ['0', '.', '0']
  else
    let decimal := shortest significand exponent
    let digits := naturalDigits decimal.digits
    let point : Int := digits.length + decimal.exponent
    if -4 < point && point ≤ 16 then positional digits point
    else scientific digits (point - 1)

/-- The written form of a number, for the names given to the infinity and to
    what is no number. -/
def Binary64.write (infinity nan : String) : Binary64 → List Char
  | .finite negative significand exponent =>
    (if negative then ['-'] else []) ++ writeMagnitude significand exponent
  | .infinity negative => (if negative then ['-'] else []) ++ infinity.toList
  | .nan => nan.toList

end TemplateAnalysis.Decimal
