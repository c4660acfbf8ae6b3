import Formula.Binary64.Basic
import Formula.Decimal

/-!
# Rounding to the nearest value

A positive ratio `n / d` is rounded to the nearest magnitude, a half going to the even neighbour. The ratio lies
between two powers of two, which gives the power that the significand counts, no less than `2 ^ -1074`; the rest is
one rounded division in whole numbers. A significand that is rounded up to the next power of two carries into the
exponent field, and a magnitude past the largest number is infinity.
-/

namespace Formula.Binary64

open Decimal (powerOfTen)

/-- The whole number nearest to `n / d`, the even one of two that are equally near. -/
def roundHalfEven (n d : Nat) : Nat :=
  if d < 2 * (n % d) ∨ (d = 2 * (n % d) ∧ n / d % 2 = 1) then n / d + 1 else n / d

/-- The greatest `k` with `2 ^ k ≤ n / d`. -/
def binaryOrder (n d : Nat) : Int :=
  let k : Int := n.log2 - d.log2
  if d <<< k.toNat ≤ n <<< (-k).toNat then k else k - 1

/-- The power of two that the significand of the ratio counts. -/
def exponentOfRatio (n d : Nat) : Int :=
  max (-1074) (binaryOrder n d - 52)

/-- The magnitude nearest to `n / d`, without a bound above. -/
def magnitudeOfRatio (n d : Nat) : Nat :=
  if n = 0 then 0
  else
    let q := exponentOfRatio n d
    roundHalfEven (n <<< (-q).toNat) (d <<< q.toNat) + (q + 1074).toNat * fieldWeight

/-- The value nearest to a decimal with the given sign. -/
def ofDecimal (negative : Bool) (x : Decimal) : Binary64 :=
  ofMagnitude negative (magnitudeOfRatio (x.coefficient * powerOfTen x.exponent.toNat) (powerOfTen (-x.exponent).toNat))

/-- A whole number is its own rounding. -/
theorem roundHalfEven_mul_left {d : Nat} (hd : 0 < d) (n : Nat) : roundHalfEven (d * n) d = n := by
  simp [roundHalfEven, Nat.mul_div_cancel_left n hd]
  omega

/-- The rounding is at most half a unit away. -/
theorem two_mul_roundHalfEven_le {n d : Nat} (hd : 0 < d) : 2 * (roundHalfEven n d * d) ≤ 2 * n + d := by
  have hdm := Nat.div_add_mod n d
  have hlt := Nat.mod_lt n hd
  rw [Nat.mul_comm] at hdm
  unfold roundHalfEven
  split
  · rw [Nat.add_mul, Nat.one_mul]
    omega
  · omega

theorem two_mul_le_roundHalfEven {n d : Nat} (hd : 0 < d) : 2 * n ≤ 2 * (roundHalfEven n d * d) + d := by
  have hdm := Nat.div_add_mod n d
  have hlt := Nat.mod_lt n hd
  rw [Nat.mul_comm] at hdm
  unfold roundHalfEven
  split
  · rw [Nat.add_mul, Nat.one_mul]
    omega
  · omega

end Formula.Binary64
