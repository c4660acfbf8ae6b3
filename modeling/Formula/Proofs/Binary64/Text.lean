import Formula.Binary64.Layout
import Formula.Proofs.Binary64.Shortest
import Formula.Proofs.Numeral.Fixed

/-!
# The text of a finite value reads back

In either notation the text of a value is read as its shortest decimal, perhaps with zeros behind the coefficient, and
so as the value (`fixed?_text`). Two finite values with one text are therefore one value (`text_injective`). The text of
a value without a sign begins with a digit and has a point or a power of ten in it (`isDecimalText_text`).
-/

namespace Formula.Binary64

open Decimal (powerOfTen)
open Numeral

variable {x y : Binary64} {digits : List Char}

theorem ofDecimal_mul_ten_pow (negative : Bool) (c zeros : Nat) (exponent : Int) :
    ofDecimal negative ⟨c * 10 ^ zeros, exponent⟩ = ofDecimal negative ⟨c, exponent + zeros⟩ :=
  ofDecimal_mul_pow negative c zeros exponent

theorem isDigits_append {v w : List Char} (hv : isDigits v = true) (hw : ∀ c ∈ w, c.isDigit = true) :
    isDigits (v ++ w) = true := by
  obtain ⟨hne, hv⟩ := isDigits_iff.mp hv
  exact isDigits_iff.mpr ⟨by simp [hne], List.forall_mem_append.mpr ⟨hv, hw⟩⟩

theorem forall_isDigit_zeros (n : Nat) : ∀ c ∈ List.replicate n '0', c.isDigit = true := by
  intro c hc
  rw [List.eq_of_mem_replicate hc]
  decide

/-! ## Positional notation -/

/-- Positional notation is digits on either side of a point, and writes the digits with zeros behind them. -/
theorem exists_positional (h : isDigits digits = true) (point : Int) :
    ∃ (whole fraction : List Char) (zeros : Nat), positional digits point = whole ++ '.' :: fraction ∧
      isDigits whole = true ∧ isDigits fraction = true ∧
      valueOf (whole ++ fraction) = valueOf digits * 10 ^ zeros ∧
      point - digits.length = zeros - fraction.length := by
  obtain ⟨hne, hdigits⟩ := isDigits_iff.mp h
  have hpos : 0 < digits.length := List.length_pos_iff.mpr hne
  by_cases hlow : point ≤ 0
  · -- all digits stand behind the point, behind zeros
    have hnat : point.toNat = 0 := by omega
    refine ⟨['0'], List.replicate (-point).toNat '0' ++ digits, 0, ?_, by decide, ?_, ?_, ?_⟩
    · simp [positional, hnat, hne]
    · exact isDigits_iff.mpr ⟨by simp [hne], List.forall_mem_append.mpr ⟨forall_isDigit_zeros _, hdigits⟩⟩
    · have := valueOf_zeros_append ((-point).toNat + 1) digits
      simpa [List.replicate_succ] using this
    · simp
      omega
  · by_cases hhigh : point.toNat < digits.length
    · -- the point stands between two digits
      have hzeros : point.toNat - digits.length = 0 ∧ (-point).toNat = 0 := by omega
      have htake : digits.take point.toNat ≠ [] := by
        rw [← List.length_pos_iff, List.length_take]
        omega
      have hdrop : digits.drop point.toNat ≠ [] := by
        rw [← List.length_pos_iff, List.length_drop]
        omega
      refine ⟨digits.take point.toNat, digits.drop point.toNat, 0, ?_, ?_, ?_, ?_, ?_⟩
      · simp only [positional, hzeros.1, hzeros.2, List.replicate_zero, List.append_nil, List.nil_append,
          List.isEmpty_eq_false_iff.mpr htake, List.isEmpty_eq_false_iff.mpr hdrop, Bool.false_eq_true, if_false]
      · exact isDigits_iff.mpr ⟨htake, fun c hc => hdigits c (List.mem_of_mem_take hc)⟩
      · exact isDigits_iff.mpr ⟨hdrop, fun c hc => hdigits c (List.mem_of_mem_drop hc)⟩
      · rw [List.take_append_drop, Nat.pow_zero, Nat.mul_one]
      · simp
        omega
    · -- all digits stand before the point, with zeros behind them
      refine ⟨digits ++ List.replicate (point.toNat - digits.length) '0', ['0'], point.toNat - digits.length + 1,
        ?_, ?_, by decide, ?_, ?_⟩
      · have hzeros : (-point).toNat = 0 := by omega
        have htake : digits.take point.toNat = digits := List.take_of_length_le (by omega)
        have hdrop : digits.drop point.toNat = [] := List.drop_of_length_le (by omega)
        simp [positional, hzeros, htake, hdrop, hne]
      · exact isDigits_append h (forall_isDigit_zeros _)
      · have := valueOf_append_zeros digits (point.toNat - digits.length + 1)
        rwa [List.replicate_succ', ← List.append_assoc] at this
      · simp
        omega

theorem decimal?_positional (negative : Bool) (h : isDigits digits = true) (point : Int) :
    decimal? (signText negative ++ positional digits point) =
      some (ofDecimal negative ⟨valueOf digits, point - digits.length⟩) := by
  obtain ⟨whole, fraction, zeros, htext, hwhole, hfraction, hvalue, hexponent⟩ := exists_positional h point
  have hsum : -(fraction.length : Int) + zeros = zeros - fraction.length := by omega
  rw [htext, decimal?_point negative hwhole hfraction, hvalue, ofDecimal_mul_ten_pow, hsum, hexponent]

/-! ## Scientific notation -/

theorem decimal?_scientific (negative : Bool) (h : isDigits digits = true) {point : Int} (hlo : -0x10000 < point - 1)
    (hhi : point - 1 < 0x10000) :
    decimal? (signText negative ++ scientific digits point) =
      some (ofDecimal negative ⟨valueOf digits, point - digits.length⟩) := by
  obtain ⟨hne, hdigits⟩ := isDigits_iff.mp h
  have hpower : power? ('e' :: (toString (point - 1)).toList) = some (point - 1) :=
    power?_toString hlo hhi
  have hmark (w : List Char) : ∀ c ∈ ('e' :: w).head?, c.isDigit = false := by
    rintro _ ⟨⟩
    decide
  cases digits with
  | nil => exact absurd rfl hne
  | cons c fraction =>
    have hc : isDigits [c] = true := isDigits_iff.mpr ⟨by simp, by simpa using hdigits c List.mem_cons_self⟩
    cases fraction with
    | nil =>
      have hpoint (w : List Char) : splitPoint ('e' :: w) = ([], 'e' :: w) := rfl
      have htext : scientific [c] point = [c] ++ 'e' :: (toString (point - 1)).toList := by simp [scientific]
      rw [htext, decimal?_of_parts negative hc (hmark _) (hpoint _) hpower]
      simp
    | cons d fraction =>
      have htext : scientific (c :: d :: fraction) point =
          [c] ++ ('.' :: (d :: fraction) ++ 'e' :: (toString (point - 1)).toList) := by simp [scientific]
      have hdot (w : List Char) : ∀ c ∈ ('.' :: w).head?, c.isDigit = false := by
        rintro _ ⟨⟩
        decide
      have hpoint := splitPoint_append_of (w := d :: fraction) (fun x hx => hdigits x (List.mem_cons_of_mem c hx))
        (hmark (toString (point - 1)).toList)
      rw [htext]
      refine (decimal?_of_parts negative hc (hdot _) hpoint hpower).trans ?_
      have hsum : point - 1 - (d :: fraction).length = point - (c :: d :: fraction).length := by
        simp only [List.length_cons]
        omega
      show some (ofDecimal negative ⟨valueOf (c :: d :: fraction), point - 1 - (d :: fraction).length⟩) = _
      rw [hsum]

/-! ## Reading back -/

theorem magnitudeText_of_isZero (h : x.isZero = true) : x.magnitudeText = positional ['0'] 1 := by
  rw [magnitudeText, if_pos h]
  decide

theorem magnitudeText_of_not_isZero (h : x.isZero = false) : x.magnitudeText =
    if leastPoint < x.shortest.point ∧ x.shortest.point ≤ greatestPoint then
      positional x.shortest.digits x.shortest.point
    else scientific x.shortest.digits x.shortest.point := by
  rw [magnitudeText, h]
  rfl

theorem decimal?_magnitudeText (h : x.isFinite = true) :
    decimal? (signText x.negative ++ x.magnitudeText) = some x := by
  cases hzero : x.isZero with
  | true =>
    have hmagnitude : x.magnitude = 0 := of_decide_eq_true hzero
    have hx : ofDecimal x.negative ⟨0, 0⟩ = x := by
      rw [← ofMagnitude_magnitude h, hmagnitude]
      rfl
    rw [magnitudeText_of_isZero hzero, decimal?_positional x.negative (by decide) 1]
    exact congrArg some hx
  | false =>
    have hdigits : isDigits x.shortest.digits = true := isDigits_toDigits _
    have hbounds := point_shortest_bounds h
    have hvalue :
        ofDecimal x.negative ⟨valueOf x.shortest.digits, x.shortest.point - x.shortest.digits.length⟩ = x := by
      have hdecimal : (⟨valueOf x.shortest.digits,
          x.shortest.length + x.shortest.exponent - x.shortest.length⟩ : Decimal) = x.shortest := by
        rw [Decimal.digits, valueOf_toDigits, add_sub_cancel_left]
      exact (congrArg _ hdecimal).trans (ofDecimal_shortest h)
    rw [magnitudeText_of_not_isZero hzero]
    split
    · rw [decimal?_positional x.negative hdigits, hvalue]
    · rw [decimal?_scientific x.negative hdigits (by omega) (by omega), hvalue]

theorem toList_text (h : x.isFinite = true) : x.text.toList = signText x.negative ++ x.magnitudeText := by
  have hlt : x.magnitude < infinite := of_decide_eq_true h
  have hnan : x.isNaN = false := decide_eq_false (by omega)
  have hinfinite : x.isInfinite = false := decide_eq_false (by omega)
  rw [text, hnan, hinfinite]
  cases hnegative : x.negative <;> simp [signText]

/-- The text of a finite value is read as that value. -/
theorem fixed?_text (h : x.isFinite = true) : fixed? x.text.toList = some x := by
  rw [fixed?, toList_text h, decimal?_magnitudeText h]
  rfl

/-- Finite values with one text are one value. -/
theorem text_injective (hx : x.isFinite = true) (hy : y.isFinite = true) (h : x.text = y.text) : x = y := by
  have hread := fixed?_text hx
  rw [h, fixed?_text hy] at hread
  exact (Option.some.inj hread).symm

/-! ## What the text looks like -/

/-- The text begins with a digit, is more than digits, and has only the characters of a decimal. -/
structure IsDecimalText (w : List Char) : Prop where
  ne_nil : w ≠ []
  head : ∀ c ∈ w.head?, c.isDigit = true
  mark : ∃ c ∈ w, c.isDigit = false
  char : ∀ c ∈ w, c.isDigit = true ∨ c = '.' ∨ c = 'e' ∨ c = '-'

theorem isDecimalText_positional (h : isDigits digits = true) (point : Int) :
    IsDecimalText (positional digits point) := by
  obtain ⟨whole, fraction, -, htext, hwhole, hfraction, -, -⟩ := exists_positional h point
  obtain ⟨hne, hwhole⟩ := isDigits_iff.mp hwhole
  obtain ⟨-, hfraction⟩ := isDigits_iff.mp hfraction
  rw [htext]
  refine ⟨by simp, fun c hc => ?_, ⟨'.', by simp, by decide⟩, ?_⟩
  · rw [List.head?_append, List.head?_eq_some_head hne] at hc
    exact hwhole c (Option.mem_some.mp hc ▸ List.head_mem hne)
  · refine List.forall_mem_append.mpr ⟨fun c hc => .inl (hwhole c hc), List.forall_mem_cons.mpr ⟨by simp, ?_⟩⟩
    exact fun c hc => .inl (hfraction c hc)

theorem isDigit_or_eq_of_mem_toString {i : Int} {c : Char} (h : c ∈ (toString i).toList) :
    c.isDigit = true ∨ c = '-' := by
  have hdigit {n : Nat} (h : c ∈ Nat.toDigits 10 n) : c.isDigit = true :=
    Nat.isDigit_of_mem_toDigits (by decide) (by decide) h
  rw [Int.toString_eq_repr, Int.repr_eq_if] at h
  split at h
  · rw [Nat.toList_repr] at h
    exact .inl (hdigit h)
  · rw [String.toList_append, Nat.toList_repr] at h
    rcases List.mem_append.mp h with h | h
    · exact .inr (List.mem_singleton.mp h)
    · exact .inl (hdigit h)

theorem isDecimalText_scientific (h : isDigits digits = true) (point : Int) :
    IsDecimalText (scientific digits point) := by
  obtain ⟨hne, hdigits⟩ := isDigits_iff.mp h
  cases digits with
  | nil => exact absurd rfl hne
  | cons c fraction =>
    have hpower : ∀ d ∈ 'e' :: (toString (point - 1)).toList, d.isDigit = true ∨ d = '.' ∨ d = 'e' ∨ d = '-' := by
      refine List.forall_mem_cons.mpr ⟨by simp, fun d hd => ?_⟩
      exact (isDigit_or_eq_of_mem_toString hd).imp_right fun h => .inr (.inr h)
    have hfraction : ∀ d ∈ (if fraction.isEmpty then [] else '.' :: fraction),
        d.isDigit = true ∨ d = '.' ∨ d = 'e' ∨ d = '-' := by
      intro d hd
      split at hd
      · cases hd
      · rcases List.mem_cons.mp hd with rfl | hd
        · simp
        · exact .inl (hdigits d (List.mem_cons_of_mem c hd))
    have htext : scientific (c :: fraction) point =
        c :: ((if fraction.isEmpty then [] else '.' :: fraction) ++ 'e' :: (toString (point - 1)).toList) := rfl
    rw [htext]
    refine ⟨by simp, fun d hd => ?_, ⟨'e', by simp, by decide⟩, List.forall_mem_cons.mpr ⟨?_, ?_⟩⟩
    · exact Option.mem_some.mp hd ▸ hdigits c List.mem_cons_self
    · exact .inl (hdigits c List.mem_cons_self)
    · exact List.forall_mem_append.mpr ⟨hfraction, hpower⟩

/-- The text of a value without a sign. -/
theorem isDecimalText_text (h : x.isFinite = true) (hnegative : x.negative = false) : IsDecimalText x.text.toList := by
  rw [toList_text h, hnegative]
  show IsDecimalText x.magnitudeText
  cases hzero : x.isZero with
  | true =>
    rw [magnitudeText_of_isZero hzero]
    exact isDecimalText_positional (by decide) 1
  | false =>
    have hdigits : isDigits x.shortest.digits = true := isDigits_toDigits _
    rw [magnitudeText_of_not_isZero hzero]
    split
    · exact isDecimalText_positional hdigits _
    · exact isDecimalText_scientific hdigits _

end Formula.Binary64
