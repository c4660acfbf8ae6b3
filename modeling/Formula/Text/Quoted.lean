import Formula.Text.Graphic

/-!
# Quoted text

A text between double quotes, in which every character can be told apart: the quote, the backslash and four control
characters have a short escape, every other character that is not graphic is written by its code point.
-/

namespace Formula.Text

/-- The code point in lower case hexadecimal, as few digits as it needs. -/
def codePointEscape (c : Char) : List Char :=
  ['\\', 'u', '\x7b'] ++ Nat.toDigits 16 c.toNat ++ ['\x7d']

/-- What stands for one character between the quotes. -/
def escape (c : Char) : List Char :=
  if c = '\x00' then ['\\', '0']
  else if c = '\t' then ['\\', 't']
  else if c = '\n' then ['\\', 'n']
  else if c = '\r' then ['\\', 'r']
  else if c = '"' then ['\\', '"']
  else if c = '\\' then ['\\', '\\']
  else if isGraphic c then [c]
  else codePointEscape c

/-- The text in double quotes. -/
def quote (s : String) : String :=
  String.ofList ('"' :: s.toList.flatMap escape ++ ['"'])

/-- A character of ASCII from the space on stands for itself, the quote, the backslash and the delete aside. -/
theorem escape_of_plain {c : Char} (hlo : 0x20 ≤ c.toNat) (hhi : c.toNat < 0x7f) (hq : c ≠ '"') (hb : c ≠ '\\') :
    escape c = [c] := by
  have h0 : c ≠ '\x00' := by rintro rfl; revert hlo; decide
  have ht : c ≠ '\t' := by rintro rfl; revert hlo; decide
  have hn : c ≠ '\n' := by rintro rfl; revert hlo; decide
  have hr : c ≠ '\r' := by rintro rfl; revert hlo; decide
  simp [escape, h0, ht, hn, hr, hq, hb, isGraphic_of_lt hhi, hlo]

end Formula.Text
