import Formula.Binary64.Shortest

/-!
# Decimal text of a value

A finite value is written with the fewest digits that read back. Magnitudes from `10 ^ -4` up to `10 ^ 16` are written
with a point and at least one digit on either side of it, all others with one digit before the point and a power of
ten.
-/

namespace Formula.Binary64

/-- The least number of places that the point stands behind the first digit in positional notation, less one. -/
def leastPoint : Int := -4

/-- The greatest number of digits before the point in positional notation. -/
def greatestPoint : Int := 16

/-- The digits with the point after the first `point` of them, filled up with zeros. -/
def positional (digits : List Char) (point : Int) : List Char :=
  let whole := digits.take point.toNat ++ List.replicate (point.toNat - digits.length) '0'
  let fraction := List.replicate (-point).toNat '0' ++ digits.drop point.toNat
  (if whole.isEmpty then ['0'] else whole) ++ '.' :: (if fraction.isEmpty then ['0'] else fraction)

/-- The digits with the point after the first of them and the power of ten that puts it in its place. -/
def scientific (digits : List Char) (point : Int) : List Char :=
  let fraction := digits.drop 1
  digits.take 1 ++ (if fraction.isEmpty then [] else '.' :: fraction) ++ 'e' :: (toString (point - 1)).toList

/-- The text of a finite magnitude. -/
def magnitudeText (x : Binary64) : List Char :=
  if x.isZero then "0.0".toList
  else
    let d := x.shortest
    let point : Int := d.length + d.exponent
    if leastPoint < point ∧ point ≤ greatestPoint then positional d.digits point else scientific d.digits point

/-- The text of a value. -/
def text (x : Binary64) : String :=
  if x.isNaN then "NaN"
  else
    (if x.negative then "-" else "") ++ (if x.isInfinite then "inf" else String.ofList x.magnitudeText)

end Formula.Binary64
