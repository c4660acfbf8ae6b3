/-!
# Signs and digits

The pieces a numeral is made of. Each `split` function gives a piece and what follows it, so the two together are the
text it was given.
-/

namespace Formula.Numeral

/-- The sign in front of the text, if it has one, and what follows. -/
def splitSign : List Char → List Char × List Char
  | '-' :: s => (['-'], s)
  | '+' :: s => (['+'], s)
  | s => ([], s)

/-- The digits in front of the text, and what follows. -/
def splitDigits (s : List Char) : List Char × List Char :=
  (s.takeWhile Char.isDigit, s.dropWhile Char.isDigit)

/-- Whether the text is one or more digits. -/
def isDigits (s : List Char) : Bool :=
  !s.isEmpty && s.all Char.isDigit

/-- The number that a digit stands for. -/
def digitValue (c : Char) : Nat :=
  c.toNat - '0'.toNat

/-- The number that the digits write. -/
def valueOf (digits : List Char) : Nat :=
  digits.foldl (fun value c => 10 * value + digitValue c) 0

theorem splitSign_append (s : List Char) : (splitSign s).1 ++ (splitSign s).2 = s := by
  unfold splitSign
  split <;> rfl

theorem splitDigits_append (s : List Char) : (splitDigits s).1 ++ (splitDigits s).2 = s :=
  List.takeWhile_append_dropWhile

theorem isDigit_of_mem_splitDigits {s : List Char} {c : Char} (h : c ∈ (splitDigits s).1) : c.isDigit :=
  List.all_eq_true.1 List.all_takeWhile c h

end Formula.Numeral
