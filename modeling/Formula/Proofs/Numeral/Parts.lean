import Formula.Proofs.Lexeme.Longest
import Formula.Proofs.Numeral.Fixed

/-!
# The parts of a numeral

Numerals are described here by what they look like, independent of how they are read: a sign is one of two characters
or absent, digits are digits. `IsLongestPrefix` says which text is found at the start of another when as much as
possible is taken of it. A sign is found by what follows it, which is a digit or a point in every numeral.
-/

namespace Formula.Numeral

variable {c : Char} {sign s t v w : List Char} {p : List Char → Prop}

/-- The text is a sign, or no sign. -/
def IsSign (w : List Char) : Prop :=
  w = [] ∨ w = ['+'] ∨ w = ['-']

/-- Of all texts of a kind at the start of another, the text is the longest. -/
structure IsLongestPrefix (p : List Char → Prop) (w s : List Char) : Prop where
  isPrefix : w <+: s
  holds : p w
  length_le {v : List Char} : v <+: s → p v → v.length ≤ w.length

/-- What is all of a kind is its own longest prefix of the kind, and there is no other. -/
theorem IsLongestPrefix.eq_of_holds (h : IsLongestPrefix p w s) (hs : p s) : w = s :=
  h.isPrefix.eq_of_length_le (h.length_le List.prefix_rfl hs)

/-- No character that signs are made of begins the text. -/
def Unsigned (s : List Char) : Prop :=
  ∀ c ∈ s.head?, c ≠ '+' ∧ c ≠ '-'

theorem ne_sign_of_isDigit (h : c.isDigit = true) : c ≠ '+' ∧ c ≠ '-' := by
  constructor
  · rintro rfl
    exact absurd h (by decide)
  · rintro rfl
    exact absurd h (by decide)

theorem unsigned_of_isDigit (h : ∀ c ∈ s.head?, c.isDigit = true) : Unsigned s :=
  fun c hc => ne_sign_of_isDigit (h c hc)

theorem isDigit_head_point (s : List Char) : ∀ c ∈ ('.' :: s).head?, c.isDigit = false := by
  rintro _ ⟨⟩
  decide

theorem isSign_splitSign (s : List Char) : IsSign (splitSign s).1 := by
  unfold splitSign
  split <;> simp [IsSign]

theorem splitSign_of_unsigned (h : Unsigned s) : splitSign s = ([], s) := by
  cases s with
  | nil => rfl
  | cons c s =>
    obtain ⟨hplus, hminus⟩ := h c rfl
    simp [splitSign, hplus, hminus]

/-- A sign ends before anything that is no sign. -/
theorem splitSign_append_of (hsign : IsSign sign) (hs : Unsigned s) : splitSign (sign ++ s) = (sign, s) := by
  rcases hsign with rfl | rfl | rfl
  · exact splitSign_of_unsigned hs
  · rfl
  · rfl

/-- Digits at the start of a text are among those that are split off. -/
theorem length_le_splitDigits (hv : v <+: s) (h : ∀ c ∈ v, c.isDigit = true) : v.length ≤ (splitDigits s).1.length :=
  Scan.length_le_length_takeWhile hv h

theorem forall_splitDigits (s : List Char) : ∀ c ∈ (splitDigits s).1, c.isDigit = true :=
  fun _ => isDigit_of_mem_splitDigits

/-- No sign and no digit is blank. -/
theorem dropBlank_sign_append (hsign : IsSign sign) (hs : ∀ c ∈ s.head?, Text.isBlank c = false) :
    Text.dropBlank (sign ++ s) = sign ++ s := by
  rcases hsign with rfl | rfl | rfl
  · cases s with
    | nil => rfl
    | cons c s => exact List.dropWhile_cons_of_neg (by simp [hs c rfl])
  · exact List.dropWhile_cons_of_neg (by decide)
  · exact List.dropWhile_cons_of_neg (by decide)

end Formula.Numeral
