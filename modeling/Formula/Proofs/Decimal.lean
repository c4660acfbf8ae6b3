import Mathlib.Algebra.Ring.Nat
import Formula.Decimal

/-!
# Where the point of a decimal stands

`d.point` is the number of digits before the point of a decimal, with zeros behind the point counted as negative. To
drop zeros at the end leaves it alone, to cut digits off does not raise it, and the next decimal raises it by one at
most.
-/

namespace Formula.Decimal

variable {d : Decimal} {n : Nat}

/-- The power of ten that is one more than that of the first digit. -/
def point (d : Decimal) : Int :=
  d.length + d.exponent

theorem length_pos (d : Decimal) : 0 < d.length :=
  Nat.length_toDigits_pos

theorem length_le_iff (hn : 0 < n) : d.length ≤ n ↔ d.coefficient < 10 ^ n :=
  Nat.length_toDigits_le_iff (by decide) hn

theorem coefficient_lt (d : Decimal) : d.coefficient < 10 ^ d.length :=
  (length_le_iff d.length_pos).mp (Nat.le_refl _)

theorem exponent_lt_point (d : Decimal) : d.exponent < d.point := by
  have := d.length_pos
  unfold point
  omega

/-! ## Cutting off and going on -/

theorem point_leading_le (hn : 0 < n) (hle : n ≤ d.length) : (d.leading n).point ≤ d.point := by
  have hlt : d.coefficient / powerOfTen (d.length - n) < 10 ^ n := by
    refine (Nat.div_lt_iff_lt_mul (Nat.pow_pos (by decide : 0 < 10))).mpr ?_
    rw [← Nat.pow_add, Nat.add_sub_cancel' hle]
    exact d.coefficient_lt
  have hlength : (d.leading n).length ≤ n := (length_le_iff hn).mpr hlt
  have hexponent : (d.leading n).exponent = d.exponent + (d.length - n : Nat) := rfl
  unfold point
  omega

theorem exponent_le_leading (d : Decimal) (n : Nat) : d.exponent ≤ (d.leading n).exponent :=
  Int.le_add_of_nonneg_right (Int.natCast_nonneg _)

theorem point_next_le (d : Decimal) : d.next.point ≤ d.point + 1 := by
  have hlt : d.next.coefficient < 10 ^ (d.length + 1) := by
    have := d.coefficient_lt
    rw [Nat.pow_succ]
    show d.coefficient + 1 < _
    omega
  have hlength : d.next.length ≤ d.length + 1 := (length_le_iff (Nat.succ_pos _)).mpr hlt
  have hexponent : d.next.exponent = d.exponent := rfl
  unfold point
  omega

/-! ## Zeros at the end -/

/-- A coefficient that ends in zero is the one before it with a zero behind. -/
theorem length_div_ten (hpos : 0 < d.coefficient) (hzero : d.coefficient % 10 = 0) :
    d.length = (⟨d.coefficient / 10, d.exponent + 1⟩ : Decimal).length + 1 := by
  have hle : 10 ≤ d.coefficient := by omega
  rw [length, digits, Nat.toDigits_of_base_le (by decide) hle, List.length_append]
  rfl

theorem point_strip (d : Decimal) : d.strip.point = d.point := by
  fun_induction strip d with
  | case1 d h ih =>
    have hlength := length_div_ten h.1 h.2
    rw [ih, point, point]
    dsimp only
    omega
  | case2 d h => rfl

end Formula.Decimal
