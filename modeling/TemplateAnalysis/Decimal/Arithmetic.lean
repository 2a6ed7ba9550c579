import TemplateAnalysis.Decimal.Binary64

/-! # Differences and comparison

    Two finite numbers are subtracted exactly, and what comes out is rounded to the
    nearest number of double precision. They are compared exactly. What is no number
    is neither less nor greater than anything.
-/

namespace TemplateAnalysis.Decimal.Binary64

instance : Zero Binary64 := ⟨.finite false 0 (-1074)⟩

/-- A significand with its sign. -/
def signed (negative : Bool) (significand : Nat) : Int :=
  if negative then -significand else significand

/-- The difference of two significands, each times a power of two, in units of the
    lesser power. -/
def alignedDifference (m e n f : Int) : Int :=
  m * Nat.pow 2 (e - min e f).toNat - n * Nat.pow 2 (f - min e f).toNat

/-- The difference of two numbers. Nothing less nothing is nothing, with a sign only
    if the first had one and the second had none. -/
def sub : Binary64 → Binary64 → Binary64
  | .finite s m e, .finite t n f =>
    let difference := alignedDifference (signed s m) e (signed t n) f
    (magnitude difference.natAbs (min e f)).toBinary64
      (difference < 0 || (difference = 0 && s && !t))
  | .infinity s, .infinity t => if s = t then .nan else .infinity s
  | .infinity s, .finite _ _ _ => .infinity s
  | .finite _ _ _, .infinity t => .infinity !t
  | .nan, _ | _, .nan => .nan

/-- Is the first number less than the second? -/
def isLess : Binary64 → Binary64 → Bool
  | .finite s m e, .finite t n f => alignedDifference (signed s m) e (signed t n) f < 0
  | .infinity s, .infinity t => s && !t
  | .infinity s, .finite _ _ _ => s
  | .finite _ _ _, .infinity t => !t
  | .nan, _ | _, .nan => false

instance : Sub Binary64 := ⟨sub⟩

-- What is left is rounded: exactly it would be less than five.
example : ofDecimal false 51 (-1) - ofDecimal false 1 (-1) = ofDecimal false 5 0 := by
  decide +kernel

instance : LT Binary64 := ⟨fun x y => x.isLess y = true⟩

instance : DecidableLT Binary64 := fun x y => inferInstanceAs (Decidable (x.isLess y = true))

end TemplateAnalysis.Decimal.Binary64
