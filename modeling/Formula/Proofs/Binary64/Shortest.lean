import Formula.Binary64.Shortest
import Formula.Proofs.Binary64.Rounding
import Formula.Proofs.Decimal

/-!
# The shortest decimal reads back

The expansion of a finite value is the value (`readsBack_expansion`), so there is a length at which some decimal reads
back, and the shortest one does (`ofDecimal_shortest`). Its point stands where that of the expansion does or one place
further on, which bounds it (`point_shortest_bounds`).
-/

namespace Formula.Binary64

open Decimal (powerOfTen)

variable {x : Binary64} {d : Decimal} {n : Nat}

theorem ofMagnitude_magnitude (h : x.isFinite = true) : ofMagnitude x.negative x.magnitude = x := by
  have hle : x.magnitude ≤ infinite := Nat.le_of_lt (of_decide_eq_true h)
  obtain ⟨negative, m, hm⟩ := x
  simpa [ofMagnitude] using hle

theorem ofDecimal_expansion (h : x.isFinite = true) : ofDecimal x.negative x.expansion = x := by
  have hmin : (min x.exponent 0).toNat = 0 ∧ (-min x.exponent 0).toNat = (-x.exponent).toNat := by omega
  have hmagnitude : magnitudeOfRatio (x.expansion.coefficient * powerOfTen x.expansion.exponent.toNat)
      (powerOfTen (-x.expansion.exponent).toNat) = x.magnitude := by
    refine magnitudeOfRatio_of_eq (Nat.pow_pos (by decide)) ?_
    simp only [expansion, hmin.1, hmin.2, powerOfTen, Nat.pow_eq, Nat.shiftLeft_eq]
    calc x.significand * 2 ^ x.exponent.toNat * 5 ^ (-x.exponent).toNat * 10 ^ 0 * 2 ^ (-x.exponent).toNat
        = x.significand * 2 ^ x.exponent.toNat * (5 ^ (-x.exponent).toNat * 2 ^ (-x.exponent).toNat) := by ring
      _ = x.significand * 2 ^ x.exponent.toNat * 10 ^ (-x.exponent).toNat := by rw [← Nat.mul_pow]
  rw [ofDecimal, hmagnitude, ofMagnitude_magnitude h]

theorem readsBack_expansion (h : x.isFinite = true) : x.readsBack x.expansion = true :=
  decide_eq_true (ofDecimal_expansion h)

theorem ofDecimal_strip (negative : Bool) (d : Decimal) : ofDecimal negative d.strip = ofDecimal negative d := by
  fun_induction Decimal.strip d with
  | case1 d hd ih =>
    have hdm : d.coefficient / 10 * powerOfTen 1 = d.coefficient := Nat.div_mul_cancel (Nat.dvd_of_mod_eq_zero hd.2)
    have hpow := ofDecimal_mul_pow negative (d.coefficient / 10) 1 d.exponent
    rw [hdm] at hpow
    exact ih.trans hpow.symm
  | case2 d hd => rfl

/-- The candidates for the shortest decimal: neighbours of the expansion with fewer digits, and the expansion. -/
inductive Candidate (x : Binary64) : Decimal → Prop
  | leading {n : Nat} : 0 < n → n ≤ x.expansion.length → Candidate x (x.expansion.leading n)
  | next {n : Nat} : 0 < n → n ≤ x.expansion.length → Candidate x (x.expansion.leading n).next
  | expansion : Candidate x x.expansion

theorem eq_or_eq_of_atLength (h : x.atLength n = some d) :
    d = x.expansion.leading n ∨ d = (x.expansion.leading n).next := by
  unfold atLength at h
  grind

/-- The shortest decimal is a candidate that reads back, without the zeros at its end. -/
theorem exists_candidate (h : x.isFinite = true) :
    ∃ d, x.shortest = d.strip ∧ Candidate x d ∧ x.readsBack d = true := by
  cases hfind : (List.range' 1 x.expansion.length).findSome? x.atLength with
  | none => exact ⟨x.expansion, by rw [shortest, hfind]; rfl, .expansion, readsBack_expansion h⟩
  | some d =>
    obtain ⟨n, hn, hd⟩ := List.exists_of_findSome?_eq_some hfind
    obtain ⟨i, hi, rfl⟩ := List.mem_range'.mp hn
    refine ⟨d, by rw [shortest, hfind]; rfl, ?_, readsBack_of_atLength hd⟩
    rcases eq_or_eq_of_atLength hd with rfl | rfl
    · exact .leading (by omega) (by omega)
    · exact .next (by omega) (by omega)

/-- The shortest decimal of a finite value is rounded to that value. -/
theorem ofDecimal_shortest (h : x.isFinite = true) : ofDecimal x.negative x.shortest = x := by
  obtain ⟨d, hd, -, hreads⟩ := exists_candidate h
  rw [hd, ofDecimal_strip]
  exact of_decide_eq_true hreads

/-! ## Where its point stands -/

theorem exponent_bounds (h : x.isFinite = true) : -1074 ≤ x.exponent ∧ x.exponent ≤ 971 := by
  have hlt : x.magnitude < infinite := of_decide_eq_true h
  have hfield : x.field < 2047 := Nat.div_lt_of_lt_mul hlt
  unfold exponent
  omega

theorem mul_lt_pow {s u v i j k : Nat} (hs : s < 10 ^ i) (hu : u ≤ 10 ^ j) (hv : v ≤ 10 ^ k) :
    s * (u * v) < 10 ^ (i + (j + k)) := by
  rw [Nat.pow_add, Nat.pow_add]
  calc s * (u * v) ≤ s * (10 ^ j * 10 ^ k) := Nat.mul_le_mul_left _ (Nat.mul_le_mul hu hv)
    _ < 10 ^ i * (10 ^ j * 10 ^ k) :=
      Nat.mul_lt_mul_of_pos_right hs (Nat.mul_pos (Nat.pow_pos (by decide)) (Nat.pow_pos (by decide)))

/-- A generous bound on the digits of the expansion. -/
theorem length_expansion_le (h : x.isFinite = true) : x.expansion.length ≤ 2098 := by
  have he := exponent_bounds h
  have hpow {b k n : Nat} (hb : b ≤ 10) (hk : k ≤ n) : b ^ k ≤ 10 ^ n :=
    (Nat.pow_le_pow_left hb k).trans (Nat.pow_le_pow_right (by decide) hk)
  have hs : x.significand < 10 ^ 53 := x.significand_lt.trans_le (Nat.pow_le_pow_left (by decide) _)
  have hu : 2 ^ x.exponent.toNat ≤ 10 ^ 971 := hpow (by decide) (by omega)
  have hv : 5 ^ (-x.exponent).toNat ≤ 10 ^ 1074 := hpow (by decide) (by omega)
  have hcoefficient : x.expansion.coefficient = x.significand * (2 ^ x.exponent.toNat * 5 ^ (-x.exponent).toNat) := by
    rw [expansion, Nat.shiftLeft_eq, Nat.mul_assoc]
    rfl
  -- the bound is kept under a name, so that the power is not evaluated
  obtain ⟨n, hn, hle, hlt⟩ : ∃ n, 0 < n ∧ n ≤ 2098 ∧ x.expansion.coefficient < 10 ^ n :=
    ⟨_, by decide, by decide, hcoefficient ▸ mul_lt_pow hs hu hv⟩
  exact ((Decimal.length_le_iff hn).mpr hlt).trans hle

theorem Candidate.point_bounds (h : Candidate x d) :
    x.expansion.exponent < d.point ∧ d.point ≤ x.expansion.point + 1 := by
  cases h with
  | @leading n hn hle =>
    have := (x.expansion.leading n).exponent_lt_point
    have := x.expansion.exponent_le_leading n
    have := Decimal.point_leading_le hn hle
    omega
  | @next n hn hle =>
    have : (x.expansion.leading n).exponent < (x.expansion.leading n).next.point :=
      (x.expansion.leading n).next.exponent_lt_point
    have := x.expansion.exponent_le_leading n
    have := Decimal.point_leading_le hn hle
    have := (x.expansion.leading n).point_next_le
    omega
  | expansion =>
    have := x.expansion.exponent_lt_point
    omega

/-- The point of the shortest decimal stands nowhere near the power of ten at which readers stop. -/
theorem point_shortest_bounds (h : x.isFinite = true) : -1074 < x.shortest.point ∧ x.shortest.point ≤ 2099 := by
  obtain ⟨d, hd, hcandidate, -⟩ := exists_candidate h
  have hpoint := hcandidate.point_bounds
  have hlength := length_expansion_le h
  have he := exponent_bounds h
  have hexponent : x.expansion.exponent = min x.exponent 0 := rfl
  rw [hd, Decimal.point_strip]
  unfold Decimal.point at hpoint ⊢
  omega

end Formula.Binary64
