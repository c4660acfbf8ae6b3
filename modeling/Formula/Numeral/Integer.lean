import Formula.Text.Blank
import Formula.Numeral.Digits

/-!
# Integers

A whole number of 64 bits is read in two ways. `integer?` takes the whole text, an optional sign and digits, and
refuses a number out of range. `leadingInteger` takes any text: it skips what is blank, reads as many digits as there
are after an optional sign, and stays at the end of the range once a digit leads out of it.
-/

namespace Formula.Numeral

/-- The integer nearest to a number, the end of the range for one that is out of it. -/
def clamp (v : Int) : Int64 :=
  Int64.ofInt (max Int64.minValue.toInt (min Int64.maxValue.toInt v))

/-- The number with the given sign and digits. -/
def signedValue (sign digits : List Char) : Int :=
  if sign = ['-'] then -(valueOf digits : Int) else valueOf digits

/-- The integer that the whole text writes. -/
def integer? (s : List Char) : Option Int64 :=
  let (sign, digits) := splitSign s
  let value := signedValue sign digits
  if isDigits digits && Int64.minValue.toInt ≤ value && value ≤ Int64.maxValue.toInt then some (Int64.ofInt value)
  else none

/-- One more digit behind an integer: away from zero on the side of its sign, and never out of range. -/
def appendDigit (sign : List Char) (value : Int64) (c : Char) : Int64 :=
  let shifted := (clamp (value.toInt * 10)).toInt
  if sign = ['-'] then clamp (shifted - digitValue c) else clamp (shifted + digitValue c)

/-- The integer that the text begins with, zero if it begins with none. -/
def leadingInteger (s : List Char) : Int64 :=
  let (sign, rest) := splitSign (Text.dropBlank s)
  (splitDigits rest).1.foldl (appendDigit sign) 0

theorem toInt_clamp (v : Int) :
    (clamp v).toInt = max Int64.minValue.toInt (min Int64.maxValue.toInt v) := by
  have hlo : Int64.minValue.toInt = -9223372036854775808 := by decide
  have hhi : Int64.maxValue.toInt = 9223372036854775807 := by decide
  rw [clamp, hlo, hhi, Int64.toInt_ofInt_of_le] <;> omega

end Formula.Numeral
