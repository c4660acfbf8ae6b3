import Mathlib.Algebra.Ring.Int.Defs
import Mathlib.Data.List.Induction
import Formula.Numeral.Policy
import Formula.Proofs.Numeral.Parts

/-!
# What is read as an integer

A strict reader takes exactly the texts that are a sign and digits and write a number of 64 bits. A permissive one takes
the number that the longest sign and digits in front of a text write, or the end of the range that is nearest to it.
The loop that reads the digits never leaves the range, and stays at the end of it once it is there
(`appendDigit_clamp`), so what it has read is at any time the nearest number to what the digits so far write.
-/

namespace Formula.Numeral

variable {sign digits s v : List Char}

/-- The number that a sign and decimal digits write. -/
def exactValue (sign digits : List Char) : Int :=
  if sign = ['-'] then -(Nat.ofDigitChars 10 digits 0 : Int) else Nat.ofDigitChars 10 digits 0

theorem signedValue_eq (sign digits : List Char) : signedValue sign digits = exactValue sign digits := rfl

/-- The text is a sign if there is one, and digits if there are any. -/
def IsSigned (w : List Char) : Prop :=
  ∃ sign digits, w = sign ++ digits ∧ IsSign sign ∧ ∀ c ∈ digits, c.isDigit = true

/-! ## The loop -/

theorem valueOf_concat (digits : List Char) (c : Char) :
    valueOf (digits ++ [c]) = 10 * valueOf digits + digitValue c := by
  simp [valueOf]

/-- The next digit is added to the nearest integer as if to the number itself: a number out of range only moves further
away from it. -/
theorem appendDigit_clamp (sign digits : List Char) (c : Char) :
    appendDigit sign (clamp (signedValue sign digits)) c = clamp (signedValue sign (digits ++ [c])) := by
  apply Int64.toInt_inj.mp
  have hrange := Int64.toInt_minValue
  have hrange' := Int64.toInt_maxValue
  by_cases hsign : sign = ['-']
  · simp only [appendDigit, signedValue, hsign, if_true, toInt_clamp, valueOf_concat]
    omega
  · simp only [appendDigit, signedValue, hsign, if_false, toInt_clamp, valueOf_concat]
    omega

theorem foldl_appendDigit (sign digits : List Char) :
    digits.foldl (appendDigit sign) 0 = clamp (signedValue sign digits) := by
  induction digits using List.reverseRecOn with
  | nil =>
    have hzero : signedValue sign [] = 0 := by simp [signedValue, valueOf]
    rw [hzero]
    rfl
  | append_singleton digits c ih =>
    rw [List.foldl_append, ih]
    exact appendDigit_clamp sign digits c

theorem toInt_foldl_appendDigit (sign digits : List Char) :
    (digits.foldl (appendDigit sign) 0).toInt = max (-2 ^ 63) (min (2 ^ 63 - 1) (exactValue sign digits)) := by
  rw [foldl_appendDigit, toInt_clamp, signedValue_eq, Int64.toInt_minValue, Int64.toInt_maxValue]

/-! ## The text in front -/

/-- The longest sign and digits are found by taking the sign first and all digits behind it. -/
theorem isLongestPrefix_isSigned (s : List Char) :
    IsLongestPrefix IsSigned ((splitSign s).1 ++ (splitDigits (splitSign s).2).1) s where
  isPrefix := by
    refine ⟨(splitDigits (splitSign s).2).2, ?_⟩
    rw [List.append_assoc, splitDigits_append, splitSign_append]
  holds := ⟨_, _, rfl, isSign_splitSign s, forall_splitDigits _⟩
  length_le := by
    rintro _ ⟨r, rfl⟩ ⟨sign, digits, rfl, hsign, hdigits⟩
    have hall (t : List Char) : digits.length ≤ (splitDigits (digits ++ t)).1.length :=
      length_le_splitDigits (List.prefix_append _ _) hdigits
    rcases hsign with rfl | rfl | rfl
    · cases digits with
      | nil => exact Nat.zero_le _
      | cons d digits =>
        have hd : ∀ c ∈ (d :: digits ++ r).head?, c.isDigit = true := by
          rintro _ ⟨⟩
          exact hdigits d List.mem_cons_self
        rw [List.nil_append, splitSign_of_isDigit hd]
        exact hall r
    · exact Nat.succ_le_succ (hall r)
    · exact Nat.succ_le_succ (hall r)

/-- What is read of a text is its longest sign and digits. -/
theorem toInt_leadingInteger (s : List Char) :
    (leadingInteger s).toInt = max (-2 ^ 63) (min (2 ^ 63 - 1) (exactValue (splitSign (Text.dropBlank s)).1
      (splitDigits (splitSign (Text.dropBlank s)).2).1)) :=
  toInt_foldl_appendDigit _ _

/-! ## The whole text -/

theorem splitSign_append_digits (hsign : IsSign sign) (hdigits : ∀ c ∈ digits, c.isDigit = true) :
    splitSign (sign ++ digits) = (sign, digits) :=
  splitSign_append_of hsign (unsigned_of_isDigit fun c hc => hdigits c (List.mem_of_mem_head? hc))

theorem integer?_eq_some_iff {n : Int} :
    (integer? s).map Int64.toInt = some n ↔
      ∃ sign digits, s = sign ++ digits ∧ IsSign sign ∧ IsDigits digits ∧ n = exactValue sign digits ∧
        -2 ^ 63 ≤ n ∧ n ≤ 2 ^ 63 - 1 := by
  have hlo := Int64.toInt_minValue
  have hhi := Int64.toInt_maxValue
  constructor
  · intro h
    obtain ⟨i, hi, hin⟩ := Option.map_eq_some_iff.mp h
    simp only [integer?, Bool.and_eq_true, decide_eq_true_eq, Option.ite_none_right_eq_some, Option.some.injEq] at hi
    obtain ⟨⟨⟨hdigits, hmin⟩, hmax⟩, rfl⟩ := hi
    have hvalue : n = signedValue (splitSign s).1 (splitSign s).2 := by
      rw [← hin, Int64.toInt_ofInt_of_le] <;> omega
    exact ⟨_, _, (splitSign_append s).symm, isSign_splitSign s, isDigits_iff.mp hdigits, hvalue, by omega, by omega⟩
  · rintro ⟨sign, digits, rfl, hsign, hdigits, hvalue, hmin, hmax⟩
    have hint : (Int64.ofInt n).toInt = n := Int64.toInt_ofInt_of_le (by omega) (by omega)
    simp only [integer?, splitSign_append_digits hsign hdigits.2, isDigits_iff.mpr hdigits, signedValue_eq, ← hvalue,
      hlo, hhi, hmin, hmax, decide_true, Bool.and_self, if_true, Option.map_some, hint]

/-- An integer is the one that its text begins with. -/
theorem leadingInteger_of_integer? {i : Int64} (h : integer? s = some i) : leadingInteger s = i := by
  obtain ⟨sign, digits, rfl, hsign, ⟨-, hdigits⟩, hvalue, hmin, hmax⟩ :=
    integer?_eq_some_iff.mp (show (integer? s).map Int64.toInt = some i.toInt by rw [h]; rfl)
  have hblank : Text.dropBlank (sign ++ digits) = sign ++ digits :=
    dropBlank_sign_append hsign fun c hc => Text.isBlank_eq_false_of_isDigit (hdigits c (List.mem_of_mem_head? hc))
  have hsplit : splitDigits digits = (digits, []) := by
    simpa using splitDigits_append_of (s := []) hdigits nofun
  apply Int64.toInt_inj.mp
  rw [toInt_leadingInteger, hblank, splitSign_append_digits hsign hdigits, hsplit, ← hvalue]
  omega

/-! ## What a policy decides -/

/-- How each policy reads an integer, and what the loop of the permissive one has read after any digits. -/
theorem integer_decided (text : String) :
    (∀ n : Int, (Policy.strict.integer text).value?.map Int64.toInt = some n ↔
      ∃ sign digits, text.toList = sign ++ digits ∧ IsSign sign ∧ IsDigits digits ∧ n = exactValue sign digits ∧
        -2 ^ 63 ≤ n ∧ n ≤ 2 ^ 63 - 1) ∧
    (∃ sign digits, IsSign sign ∧ (∀ c ∈ digits, c.isDigit = true) ∧
      IsLongestPrefix IsSigned (sign ++ digits) (Text.dropBlank text.toList) ∧
      (Policy.permissive.integer text).value?.map Int64.toInt =
        some (max (-2 ^ 63) (min (2 ^ 63 - 1) (exactValue sign digits)))) ∧
    (∀ i, (Policy.strict.integer text).value? = some i → (Policy.permissive.integer text).value? = some i) ∧
    ∀ sign digits : List Char,
      (digits.foldl (appendDigit sign) 0).toInt = max (-2 ^ 63) (min (2 ^ 63 - 1) (exactValue sign digits)) := by
  have hstrict : (Policy.strict.integer text).value? = integer? text.toList := Policy.value?_settle_strict _ _
  have hpermissive : (Policy.permissive.integer text).value? = some (leadingInteger text.toList) := by
    rw [Policy.integer, Policy.value?_settle_permissive]
    cases h : integer? text.toList with
    | none => rfl
    | some i => rw [leadingInteger_of_integer? h, Option.getD_some]
  rw [hstrict, hpermissive]
  refine ⟨fun n => integer?_eq_some_iff, ?_, fun i hi => by rw [leadingInteger_of_integer? hi], toInt_foldl_appendDigit⟩
  refine ⟨_, _, isSign_splitSign _, forall_splitDigits _, isLongestPrefix_isSigned _, ?_⟩
  rw [Option.map_some, toInt_leadingInteger]

end Formula.Numeral
