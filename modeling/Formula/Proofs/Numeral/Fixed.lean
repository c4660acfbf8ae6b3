import Mathlib.Algebra.Ring.Nat
import Formula.Numeral.Fixed

/-!
# Reading a decimal by its parts

What a text of digits, a point with digits behind it and a power of ten is read as (`decimal?_of_parts`). The parts are
found by what they begin with: digits end before anything that is no digit. A power of ten is read as it is written,
unless it is out of all proportion (`power?_toString`).
-/

namespace Formula.Numeral

variable {w s : List Char}

/-! ## Digits -/

theorem valueOf_eq (w : List Char) : valueOf w = Nat.ofDigitChars 10 w 0 := rfl

theorem valueOf_toDigits (n : Nat) : valueOf (Nat.toDigits 10 n) = n :=
  Nat.ofDigitChars_ten_toDigits

theorem valueOf_zeros_append (n : Nat) (w : List Char) : valueOf (List.replicate n '0' ++ w) = valueOf w := by
  rw [valueOf_eq, Nat.ofDigitChars_append, Nat.ofDigitChars_replicate_zero, Nat.mul_zero, ← valueOf_eq]

theorem valueOf_append_zeros (w : List Char) (n : Nat) : valueOf (w ++ List.replicate n '0') = valueOf w * 10 ^ n := by
  rw [valueOf_eq, Nat.ofDigitChars_append, Nat.ofDigitChars_replicate_zero, Nat.mul_comm, ← valueOf_eq]

theorem isDigits_iff : isDigits w = true ↔ w ≠ [] ∧ ∀ c ∈ w, c.isDigit = true := by
  simp [isDigits]

theorem isDigits_toDigits (n : Nat) : isDigits (Nat.toDigits 10 n) = true :=
  isDigits_iff.mpr ⟨Nat.toDigits_ne_nil, fun _ hc => Nat.isDigit_of_mem_toDigits (by decide) (by decide) hc⟩

/-- Digits end before anything that is no digit. -/
theorem splitDigits_append_of (hw : ∀ c ∈ w, c.isDigit = true) (hs : ∀ c ∈ s.head?, c.isDigit = false) :
    splitDigits (w ++ s) = (w, s) := by
  have hs : s.takeWhile Char.isDigit = [] ∧ s.dropWhile Char.isDigit = s := by
    cases s with
    | nil => exact ⟨rfl, rfl⟩
    | cons c s => simp [hs c rfl]
  rw [splitDigits, List.takeWhile_append_of_pos hw, List.dropWhile_append_of_pos hw, hs.1, hs.2, List.append_nil]

theorem splitSign_of_isDigit (h : ∀ c ∈ s.head?, c.isDigit = true) : splitSign s = ([], s) := by
  unfold splitSign
  split
  · exact absurd (h _ rfl) (by decide)
  · exact absurd (h _ rfl) (by decide)
  · rfl

/-! ## The power of ten -/

/-- Digits that write a small power are read as that power; each prefix of them writes no more. -/
theorem powerOf_eq (h : valueOf w < 0x10000) : powerOf w = valueOf w := by
  rw [valueOf_eq] at h ⊢
  unfold powerOf
  generalize 0 = power at h ⊢
  induction w generalizing power with
  | nil => rfl
  | cons c w ih =>
    rw [Nat.ofDigitChars_cons] at h ⊢
    have hle : 10 * power + digitValue c ≤ Nat.ofDigitChars 10 w (10 * power + digitValue c) := by
      rw [Nat.ofDigitChars_eq_ofDigitChars_zero]
      exact Nat.le_trans (Nat.le_mul_of_pos_left _ (Nat.pow_pos (by decide : 0 < 10))) (Nat.le_add_right _ _)
    have hlt : power < 0x10000 := by
      have : 10 * power + digitValue c < 0x10000 := Nat.lt_of_le_of_lt hle h
      omega
    rw [List.foldl_cons, if_pos hlt]
    exact ih _ h

/-- A mark with the text of a whole number is read as that number. -/
theorem power?_toString {i : Int} (hlo : -0x10000 < i) (hhi : i < 0x10000) :
    power? ('e' :: (toString i).toList) = some i := by
  have hread {n : Nat} (hn : n < 0x10000) : powerOf (Nat.toDigits 10 n) = n := by
    rw [powerOf_eq ((valueOf_toDigits n).symm ▸ hn), valueOf_toDigits]
  rw [Int.toString_eq_repr, Int.repr_eq_if]
  by_cases hi : 0 ≤ i
  · have hsign : splitSign (Nat.toDigits 10 i.toNat) = ([], Nat.toDigits 10 i.toNat) :=
      splitSign_of_isDigit fun c hc =>
        (isDigits_iff.mp (isDigits_toDigits i.toNat)).2 c (List.mem_of_mem_head? hc)
    rw [if_pos hi, Nat.toList_repr, power?, hsign]
    dsimp only
    rw [isDigits_toDigits, hread (by omega)]
    simp [isExponentMark]
    omega
  · have htext : ("-" ++ (-i).toNat.repr).toList = '-' :: Nat.toDigits 10 (-i).toNat := by simp
    rw [if_neg hi, htext, power?, splitSign]
    dsimp only
    rw [isDigits_toDigits, hread (by omega)]
    simp [isExponentMark]
    omega

/-! ## A decimal by its parts -/

/-- The text of a sign. -/
def signText (negative : Bool) : List Char :=
  if negative then ['-'] else []

theorem splitSign_signText (negative : Bool) (h : ∀ c ∈ s.head?, c.isDigit = true) :
    splitSign (signText negative ++ s) = (signText negative, s) := by
  cases negative with
  | true => rfl
  | false => exact splitSign_of_isDigit h

theorem splitPoint_append_of (hw : ∀ c ∈ w, c.isDigit = true) (hs : ∀ c ∈ s.head?, c.isDigit = false) :
    splitPoint ('.' :: w ++ s) = ('.' :: w, s) := by
  show ('.' :: (splitDigits (w ++ s)).1, (splitDigits (w ++ s)).2) = _
  rw [splitDigits_append_of hw hs]

/-- The parts of a decimal, and what it is read as. -/
theorem decimal?_of_parts (negative : Bool) {whole point rest rest' : List Char} {power : Int}
    (hwhole : isDigits whole = true) (hrest : ∀ c ∈ rest.head?, c.isDigit = false)
    (hpoint : splitPoint rest = (point, rest')) (hpower : power? rest' = some power) :
    decimal? (signText negative ++ (whole ++ rest)) =
      some (.ofDecimal negative ⟨valueOf (whole ++ point.drop 1), power - (point.drop 1).length⟩) := by
  obtain ⟨hne, hdigits⟩ := isDigits_iff.mp hwhole
  have hhead : ∀ c ∈ (whole ++ rest).head?, c.isDigit = true := by
    intro c hc
    rw [List.head?_append, List.head?_eq_some_head hne] at hc
    exact hdigits c (Option.mem_some.mp hc ▸ List.head_mem hne)
  have hsign : decide (signText negative = ['-']) = negative := by cases negative <;> rfl
  have hempty : whole.isEmpty = false := by simpa using hne
  rw [decimal?, splitSign_signText negative hhead]
  dsimp only
  rw [splitDigits_append_of hdigits hrest]
  dsimp only
  rw [hpoint]
  dsimp only
  rw [hempty, hpower, hsign]
  rfl

/-- A point with digits on either side. -/
theorem decimal?_point (negative : Bool) {whole fraction : List Char} (hwhole : isDigits whole = true)
    (hfraction : isDigits fraction = true) :
    decimal? (signText negative ++ (whole ++ '.' :: fraction)) =
      some (.ofDecimal negative ⟨valueOf (whole ++ fraction), -fraction.length⟩) := by
  have hpoint : splitPoint ('.' :: fraction) = ('.' :: fraction, []) := by
    simpa using splitPoint_append_of (s := []) (isDigits_iff.mp hfraction).2 nofun
  have hdot : ∀ c ∈ ('.' :: fraction).head?, c.isDigit = false := by
    rintro _ ⟨⟩
    decide
  rw [decimal?_of_parts negative hwhole hdot hpoint rfl]
  simp

end Formula.Numeral
