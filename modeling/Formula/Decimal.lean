/-!
# Decimals

A decimal is a whole coefficient and a power of ten. A decimal reads as its digits: `length` counts those of the
coefficient, `leading n` keeps the first `n` of them, `strip` drops the zeros they end in.
-/

namespace Formula

/-- The number `coefficient · 10 ^ exponent`. -/
structure Decimal where
  coefficient : Nat
  exponent : Int
deriving DecidableEq, Repr

namespace Decimal

/-- One with so many zeros behind it. -/
def powerOfTen (zeros : Nat) : Nat :=
  Nat.pow 10 zeros

/-- The digits of the coefficient, the first one first. -/
def digits (d : Decimal) : List Char :=
  Nat.toDigits 10 d.coefficient

/-- How many digits the coefficient has. -/
def length (d : Decimal) : Nat :=
  d.digits.length

/-- The decimal cut off after its first `n` digits. -/
def leading (d : Decimal) (n : Nat) : Decimal :=
  ⟨d.coefficient / powerOfTen (d.length - n), d.exponent + (d.length - n : Nat)⟩

/-- The next decimal above `d` with the same exponent. -/
def next (d : Decimal) : Decimal :=
  ⟨d.coefficient + 1, d.exponent⟩

/-- Whether the digits after the first `n` are less than half a unit of the `n`-th. -/
def isNearLeading (d : Decimal) (n : Nat) : Bool :=
  let unit := powerOfTen (d.length - n)
  2 * (d.coefficient % unit) < unit

/-- The same number with a coefficient that does not end in the digit zero; zero itself is left alone. -/
def strip (d : Decimal) : Decimal :=
  if 0 < d.coefficient ∧ d.coefficient % 10 = 0 then strip ⟨d.coefficient / 10, d.exponent + 1⟩ else d
termination_by d.coefficient
decreasing_by all_goals omega

end Decimal

end Formula
