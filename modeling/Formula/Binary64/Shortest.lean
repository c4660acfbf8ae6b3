import Formula.Binary64.Rounding

/-!
# The shortest decimal that reads back

Every finite value is a decimal of some length (`expansion`). Of the decimals with `n` digits only its two neighbours
can be the nearest to it, so `atLength n` tries these two by rounding them back, and `shortest` takes the least `n` at
which one of them gives the value again. Of two that do, the nearer is taken, the upper one when they are equally
near.
-/

namespace Formula.Binary64

/-- The magnitude of a finite value as a decimal: a negative power of two is a power of five over one of ten. -/
def expansion (x : Binary64) : Decimal :=
  ⟨x.significand <<< x.exponent.toNat * Nat.pow 5 (-x.exponent).toNat, min x.exponent 0⟩

/-- Whether the decimal rounds to the magnitude of the value. -/
def readsBack (x : Binary64) (d : Decimal) : Bool :=
  ofDecimal x.negative d = x

/-- The decimal with `n` digits that reads back, if there is one. -/
def atLength (x : Binary64) (n : Nat) : Option Decimal :=
  let low := x.expansion.leading n
  let high := low.next
  if x.readsBack low && (x.expansion.isNearLeading n || !x.readsBack high) then some low
  else if x.readsBack high then some high
  else none

/-- The decimal with the fewest digits that reads back. -/
def shortest (x : Binary64) : Decimal :=
  (((List.range' 1 x.expansion.length).findSome? x.atLength).getD x.expansion).strip

theorem readsBack_of_atLength {x : Binary64} {n : Nat} {d : Decimal} (h : x.atLength n = some d) : x.readsBack d := by
  unfold atLength at h
  grind

end Formula.Binary64
