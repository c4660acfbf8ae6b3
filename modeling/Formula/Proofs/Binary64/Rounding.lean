import Mathlib.Algebra.Order.Field.Power
import Mathlib.Data.Int.Log
import Mathlib.Data.Rat.Floor
import Mathlib.Tactic.FieldSimp
import Mathlib.Tactic.Positivity
import Mathlib.Tactic.Ring
import Formula.Binary64.Rounding

/-!
# Rounding depends on the ratio alone

The magnitude that is nearest to `n / d` is found from `n` and `d`, but depends on their ratio only
(`magnitudeOfRatio_congr`): the order of the ratio is its logarithm (`binaryOrder_eq_log`), and the rounded division
that is left is the same for equal ratios (`roundHalfEven_congr`). So a decimal may have zeros put behind its
coefficient (`ofDecimal_mul_pow`). A ratio that a finite magnitude stands for is rounded to that magnitude
(`magnitudeOfRatio_of_eq`).
-/

namespace Formula.Binary64

open Decimal (powerOfTen)

variable {n d n' d' c : Nat}

/-! ## The order of a ratio -/

theorem two_zpow_eq (k : ℤ) : (2 : ℚ) ^ k = 2 ^ k.toNat / 2 ^ (-k).toNat := by
  obtain ⟨m, rfl | rfl⟩ := k.eq_nat_or_neg <;> simp

theorem shiftLeft_le_iff (hd : 0 < d) (k : ℤ) :
    d <<< k.toNat ≤ n <<< (-k).toNat ↔ (2 : ℚ) ^ k ≤ (n : ℚ) / d := by
  have hd : (0 : ℚ) < d := Nat.cast_pos.mpr hd
  rw [two_zpow_eq, div_le_div_iff₀ (by positivity) hd, Nat.shiftLeft_eq, Nat.shiftLeft_eq, mul_comm d]
  exact_mod_cast Iff.rfl

theorem log_eq_of_le_of_lt {r : ℚ} {k : ℤ} (hr : 0 < r) (hle : (2 : ℚ) ^ k ≤ r) (hlt : r < 2 ^ (k + 1)) :
    Int.log 2 r = k := by
  have hk := (Int.zpow_le_iff_le_log (b := 2) Nat.one_lt_two hr).mp (by exact_mod_cast hle)
  have hk' := (Int.lt_zpow_iff_log_lt (b := 2) Nat.one_lt_two hr).mp (by exact_mod_cast hlt)
  omega

/-- The ratio lies between the powers of two that the logarithms of its terms give. -/
theorem zpow_le_ratio (hn : 0 < n) (hd : 0 < d) : (2 : ℚ) ^ ((n.log2 : ℤ) - d.log2 - 1) ≤ (n : ℚ) / d := by
  have hnlo : (2 : ℚ) ^ n.log2 ≤ n := by exact_mod_cast Nat.log2_self_le hn.ne'
  have hdhi : (d : ℚ) ≤ 2 ^ (d.log2 + 1) := by exact_mod_cast Nat.lt_log2_self.le
  have hpow : (2 : ℚ) ^ ((n.log2 : ℤ) - d.log2 - 1) = 2 ^ n.log2 / 2 ^ (d.log2 + 1) := by
    rw [← zpow_natCast, ← zpow_natCast, ← zpow_sub₀ two_ne_zero]
    congr 1
    push_cast
    ring
  rw [hpow]
  gcongr

theorem ratio_lt_zpow (hd : 0 < d) : (n : ℚ) / d < 2 ^ ((n.log2 : ℤ) - d.log2 + 1) := by
  have hnhi : (n : ℚ) < 2 ^ (n.log2 + 1) := by exact_mod_cast Nat.lt_log2_self
  have hdlo : (2 : ℚ) ^ d.log2 ≤ d := by exact_mod_cast Nat.log2_self_le hd.ne'
  have hpow : (2 : ℚ) ^ ((n.log2 : ℤ) - d.log2 + 1) = 2 ^ (n.log2 + 1) / 2 ^ d.log2 := by
    rw [← zpow_natCast, ← zpow_natCast, ← zpow_sub₀ two_ne_zero]
    congr 1
    push_cast
    ring
  rw [hpow]
  gcongr

/-- The order is the logarithm of the ratio. -/
theorem binaryOrder_eq_log (hn : 0 < n) (hd : 0 < d) : binaryOrder n d = Int.log 2 ((n : ℚ) / d) := by
  have hr : (0 : ℚ) < n / d := by positivity
  rw [binaryOrder]
  by_cases h : d <<< ((n.log2 : ℤ) - d.log2).toNat ≤ n <<< (-((n.log2 : ℤ) - d.log2)).toNat
  · rw [if_pos h]
    exact (log_eq_of_le_of_lt hr ((shiftLeft_le_iff hd _).mp h) (ratio_lt_zpow hd)).symm
  · rw [if_neg h]
    refine (log_eq_of_le_of_lt hr (zpow_le_ratio hn hd) ?_).symm
    rw [sub_add_cancel]
    exact not_le.mp (mt (shiftLeft_le_iff hd _).mpr h)

theorem ratio_congr (hd : 0 < d) (hd' : 0 < d') (h : n * d' = n' * d) : (n : ℚ) / d = n' / d' := by
  rw [div_eq_div_iff (Nat.cast_ne_zero.mpr hd.ne') (Nat.cast_ne_zero.mpr hd'.ne')]
  exact_mod_cast h

theorem pos_congr (hn : 0 < n) (hd' : 0 < d') (h : n * d' = n' * d) : 0 < n' := by
  have hpos : 0 < n' * d := h ▸ Nat.mul_pos hn hd'
  exact Nat.pos_of_mul_pos_right hpos

theorem shiftLeft_pos (hn : 0 < n) (i : Nat) : 0 < n <<< i := by
  rw [Nat.shiftLeft_eq]
  exact Nat.mul_pos hn (Nat.two_pow_pos i)

/-! ## Equal ratios -/

theorem roundHalfEven_mul_right (hc : 0 < c) (n d : Nat) : roundHalfEven (n * c) (d * c) = roundHalfEven n d := by
  have hlt : d * c < 2 * (n % d * c) ↔ d < 2 * (n % d) := by
    rw [← mul_assoc, Nat.mul_lt_mul_right hc]
  have heq : d * c = 2 * (n % d * c) ↔ d = 2 * (n % d) := by
    rw [← mul_assoc, Nat.mul_left_inj hc.ne']
  rw [roundHalfEven, roundHalfEven, Nat.mul_div_mul_right n d hc, Nat.mul_mod_mul_right]
  simp only [hlt, heq]

theorem roundHalfEven_congr (hd : 0 < d) (hd' : 0 < d') (h : n * d' = n' * d) :
    roundHalfEven n d = roundHalfEven n' d' := by
  rw [← roundHalfEven_mul_right hd' n d, h, Nat.mul_comm d d', roundHalfEven_mul_right hd]

theorem shiftLeft_congr (h : n * d' = n' * d) (i j : Nat) : n <<< i * d' <<< j = n' <<< i * d <<< j := by
  simp only [Nat.shiftLeft_eq]
  calc n * 2 ^ i * (d' * 2 ^ j) = n * d' * (2 ^ i * 2 ^ j) := by ring
    _ = n' * d * (2 ^ i * 2 ^ j) := by rw [h]
    _ = n' * 2 ^ i * (d * 2 ^ j) := by ring

/-- The magnitude that is nearest to a ratio does not depend on how the ratio is written. -/
theorem magnitudeOfRatio_congr (hd : 0 < d) (hd' : 0 < d') (h : n * d' = n' * d) :
    magnitudeOfRatio n d = magnitudeOfRatio n' d' := by
  by_cases hn : n = 0
  · have hn' : n' = 0 := by
      rw [hn, Nat.zero_mul] at h
      exact (Nat.mul_eq_zero.mp h.symm).resolve_right hd.ne'
    rw [hn, hn', magnitudeOfRatio, magnitudeOfRatio, if_pos rfl, if_pos rfl]
  · have hpos := Nat.pos_of_ne_zero hn
    have hpos' := pos_congr hpos hd' h
    have horder : exponentOfRatio n d = exponentOfRatio n' d' := by
      rw [exponentOfRatio, exponentOfRatio, binaryOrder_eq_log hpos hd, binaryOrder_eq_log hpos' hd',
        ratio_congr hd hd' h]
    rw [magnitudeOfRatio, magnitudeOfRatio, if_neg hn, if_neg hpos'.ne', horder]
    exact congrArg (· + _) (roundHalfEven_congr (shiftLeft_pos hd _) (shiftLeft_pos hd' _) (shiftLeft_congr h _ _))

/-- A decimal may have zeros put behind its coefficient. -/
theorem ofDecimal_mul_pow (negative : Bool) (c zeros : Nat) (exponent : Int) :
    ofDecimal negative ⟨c * powerOfTen zeros, exponent⟩ = ofDecimal negative ⟨c, exponent + zeros⟩ := by
  have hpow : zeros + exponent.toNat + (-(exponent + zeros)).toNat = (exponent + zeros).toNat + (-exponent).toNat := by
    omega
  refine congrArg (ofMagnitude negative) (magnitudeOfRatio_congr ?_ ?_ ?_)
  · exact Nat.pow_pos (by decide)
  · exact Nat.pow_pos (by decide)
  · simp only [powerOfTen, Nat.pow_eq]
    calc c * 10 ^ zeros * 10 ^ exponent.toNat * 10 ^ (-(exponent + zeros)).toNat
        = c * 10 ^ (zeros + exponent.toNat + (-(exponent + zeros)).toNat) := by ring
      _ = c * 10 ^ ((exponent + zeros).toNat + (-exponent).toNat) := by rw [hpow]
      _ = c * 10 ^ (exponent + zeros).toNat * 10 ^ (-exponent).toNat := by ring

/-! ## Ratios that are values -/

section

variable {x : Binary64}

/-- The significand and the exponent make up the magnitude. -/
theorem significand_add (x : Binary64) :
    x.significand + (x.exponent + 1074).toNat * fieldWeight = x.magnitude := by
  have hdm := Nat.div_add_mod x.magnitude fieldWeight
  rw [Nat.mul_comm] at hdm
  rw [significand, exponent]
  split
  · rename_i h
    rw [field] at h
    rw [h, Nat.zero_mul] at hdm
    simpa [h, field] using hdm
  · rename_i h
    have hfield : ((max x.field 1 : Nat) - 1075 + 1074 : Int).toNat = x.field - 1 := by omega
    have hsucc : x.field = x.field - 1 + 1 := by omega
    rw [hfield]
    rw [← field, hsucc, Nat.add_mul, Nat.one_mul] at hdm
    omega

theorem significand_lt (x : Binary64) : x.significand < 2 ^ 53 := by
  have hlt : x.magnitude % fieldWeight < fieldWeight := Nat.mod_lt _ (by decide)
  have hw : fieldWeight = 2 ^ 52 := rfl
  rw [significand]
  split <;> omega

/-- The significand has its leading bit unless the exponent is the least. -/
theorem exponent_eq_or_le_significand (x : Binary64) :
    x.exponent = -1074 ∨ -1074 ≤ x.exponent ∧ 2 ^ 52 ≤ x.significand := by
  have hw : fieldWeight = 2 ^ 52 := rfl
  rw [significand, exponent]
  split
  · rename_i h
    exact .inl (by simp [h])
  · exact .inr (by omega)

theorem ratio_eq (hd : 0 < d) {m : Nat} {e : ℤ} (h : n * 2 ^ (-e).toNat = m * 2 ^ e.toNat * d) :
    (n : ℚ) / d = m * 2 ^ e := by
  have hd : (d : ℚ) ≠ 0 := Nat.cast_ne_zero.mpr hd.ne'
  have h : (n : ℚ) * 2 ^ (-e).toNat = m * 2 ^ e.toNat * d := by exact_mod_cast h
  rw [two_zpow_eq, mul_div_assoc', div_eq_div_iff hd (by positivity), h]

/-- A ratio that is a value with so many bits has their number in its order. -/
theorem log_mul_zpow {m : Nat} (hm : 0 < m) (e : ℤ) : Int.log 2 ((m : ℚ) * 2 ^ e) = m.log2 + e := by
  have hlo : (2 : ℚ) ^ m.log2 ≤ m := by exact_mod_cast Nat.log2_self_le hm.ne'
  have hhi : (m : ℚ) < 2 ^ (m.log2 + 1) := by exact_mod_cast Nat.lt_log2_self
  refine log_eq_of_le_of_lt (by positivity) ?_ ?_
  · rw [zpow_add₀ two_ne_zero, zpow_natCast]
    gcongr
  · rw [add_right_comm, zpow_add₀ two_ne_zero, ← Nat.cast_succ, zpow_natCast]
    gcongr

theorem exponentOfRatio_of_eq (hd : 0 < d) (hs : 0 < x.significand)
    (h : n * 2 ^ (-x.exponent).toNat = x.significand * 2 ^ x.exponent.toNat * d) :
    exponentOfRatio n d = x.exponent := by
  have hn : 0 < n := pos_congr (Nat.mul_pos hs (Nat.two_pow_pos _)) hd h.symm
  rw [exponentOfRatio, binaryOrder_eq_log hn hd, ratio_eq hd h, log_mul_zpow hs]
  have hlt : x.significand.log2 < 53 := (Nat.log2_lt hs.ne').mpr x.significand_lt
  rcases x.exponent_eq_or_le_significand with he | ⟨he, hle⟩
  · rw [he]
    omega
  · have hlog : 52 ≤ x.significand.log2 := (Nat.le_log2 hs.ne').mpr hle
    omega

/-- A ratio that is the number of a magnitude is rounded to that magnitude. -/
theorem magnitudeOfRatio_of_eq (hd : 0 < d)
    (h : n * 2 ^ (-x.exponent).toNat = x.significand * 2 ^ x.exponent.toNat * d) :
    magnitudeOfRatio n d = x.magnitude := by
  by_cases hs : x.significand = 0
  · have hn : n = 0 := by
      rw [hs, Nat.zero_mul, Nat.zero_mul] at h
      exact (Nat.mul_eq_zero.mp h).resolve_right (Nat.two_pow_pos _).ne'
    have he : x.exponent = -1074 := x.exponent_eq_or_le_significand.resolve_right (by simp [hs])
    have hx := x.significand_add
    rw [hs, he] at hx
    rw [hn, magnitudeOfRatio, if_pos rfl, ← hx]
    rfl
  · have hs := Nat.pos_of_ne_zero hs
    have hn : 0 < n := pos_congr (Nat.mul_pos hs (Nat.two_pow_pos _)) hd h.symm
    have hscaled : n <<< (-x.exponent).toNat = d <<< x.exponent.toNat * x.significand := by
      rw [Nat.shiftLeft_eq, Nat.shiftLeft_eq, h]
      ring
    rw [magnitudeOfRatio, if_neg hn.ne', exponentOfRatio_of_eq hd hs h]
    dsimp only
    rw [hscaled, roundHalfEven_mul_left (shiftLeft_pos hd _), x.significand_add]

end

end Formula.Binary64
