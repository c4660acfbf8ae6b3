import Formula.Text.Blank
import Formula.Numeral.Digits
import Formula.Binary64.Rounding

/-!
# Fixed-point numbers

A decimal is an optional sign, digits with at most one point among them, and an optional power of ten. `fixed?` reads
a whole text, which may also name infinity or what is not a number; `leadingFixed` reads the longest decimal that any
text begins with.
-/

namespace Formula.Numeral

/-- The point in front of the text and the digits after it, if there is one, and what follows. -/
def splitPoint : List Char → List Char × List Char
  | '.' :: s => ('.' :: (splitDigits s).1, (splitDigits s).2)
  | s => ([], s)

/-- Whether the character marks a power of ten. -/
def isExponentMark (c : Char) : Bool :=
  c = 'e' || c = 'E'

/-- The power of ten that digits write, left alone by the digits that follow once it has passed `2 ^ 16`. -/
def powerOf (digits : List Char) : Nat :=
  digits.foldl (fun power c => if power < 0x10000 then 10 * power + digitValue c else power) 0

/-- The power of ten that ends a decimal: nothing, or a mark and a whole number. -/
def power? : List Char → Option Int
  | [] => some 0
  | c :: s =>
    let (sign, digits) := splitSign s
    if isExponentMark c && isDigits digits then
      some (if sign = ['-'] then -(powerOf digits : Int) else powerOf digits)
    else none

/-- The value of a decimal that takes up the whole text. -/
def decimal? (s : List Char) : Option Binary64 :=
  let (sign, s) := splitSign s
  let (whole, s) := splitDigits s
  let (point, s) := splitPoint s
  let fraction := point.drop 1
  if whole.isEmpty && fraction.isEmpty then none
  else
    (power? s).map fun power =>
      Binary64.ofDecimal (sign = ['-']) ⟨valueOf (whole ++ fraction), power - fraction.length⟩

/-- The value that a name stands for, in letters of either case: infinity or what is not a number. -/
def named? (s : List Char) : Option Binary64 :=
  let (sign, name) := splitSign s
  let name := String.ofList (name.map Char.toLower)
  if name = "inf" ∨ name = "infinity" then some (.infinity (sign = ['-']))
  else if name = "nan" then some (.nan (sign = ['-']))
  else none

/-- The value that the whole text writes. -/
def fixed? (s : List Char) : Option Binary64 :=
  (decimal? s).or (named? s)

/-- The power of ten in front of the text; a mark without digits is none. -/
def leadingPower : List Char → List Char
  | [] => []
  | c :: s =>
    let (sign, s) := splitSign s
    let digits := (splitDigits s).1
    if isExponentMark c && !digits.isEmpty then c :: sign ++ digits else []

/-- The longest decimal that the text begins with, empty if it begins with none. -/
def leadingDecimal (s : List Char) : List Char :=
  let (sign, s) := splitSign s
  let (whole, s) := splitDigits s
  let (point, s) := splitPoint s
  if whole.isEmpty && point.length ≤ 1 then [] else sign ++ whole ++ point ++ leadingPower s

/-- The value of the longest decimal that the text begins with, blank characters aside; zero if there is none. -/
def leadingFixed (s : List Char) : Binary64 :=
  (decimal? (leadingDecimal (Text.dropBlank s))).getD .zero

theorem splitPoint_append (s : List Char) : (splitPoint s).1 ++ (splitPoint s).2 = s := by
  unfold splitPoint
  split
  · simp [splitDigits_append]
  · rfl

end Formula.Numeral
