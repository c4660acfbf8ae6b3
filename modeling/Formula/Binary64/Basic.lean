/-!
# Binary floating point with 64 bits

A value is a sign and a magnitude of 63 bits, the eleven upper ones being the exponent field and the others the
fraction. Magnitudes are ordered as the numbers they stand for; the largest number is followed by infinity, and every
magnitude above that is not a number. A finite value is `significand · 2 ^ exponent` with its sign.
-/

namespace Formula

namespace Binary64

/-- The weight of the sign bit, `2 ^ 63`. -/
def signWeight : Nat := 0x8000000000000000

/-- The weight of the lowest bit of the exponent field, `2 ^ 52`. -/
def fieldWeight : Nat := 0x10000000000000

/-- The magnitude of infinity: all bits of the exponent field, no fraction. -/
def infinite : Nat := 0x7ff0000000000000

end Binary64

/-- A floating point value: its sign, and its exponent and fraction fields as one number. -/
structure Binary64 where
  negative : Bool
  magnitude : Nat
  magnitude_lt : magnitude < Binary64.signWeight
deriving DecidableEq, Repr

namespace Binary64

/-- The value of a word of 64 bits, the sign in front. -/
def ofBits (bits : UInt64) : Binary64 :=
  ⟨signWeight ≤ bits.toNat, bits.toNat % signWeight, Nat.mod_lt _ (by decide)⟩

/-- The word of 64 bits of a value. -/
def toBits (x : Binary64) : UInt64 :=
  UInt64.ofNat ((if x.negative then signWeight else 0) + x.magnitude)

/-- The value with the given sign and magnitude, at most infinity. -/
def ofMagnitude (negative : Bool) (m : Nat) : Binary64 :=
  ⟨negative, min m infinite, Nat.lt_of_le_of_lt (Nat.min_le_right m infinite) (by decide)⟩

def zero : Binary64 := ofMagnitude false 0

def infinity (negative : Bool) : Binary64 := ofMagnitude negative infinite

/-- The quiet value that is not a number. -/
def nan (negative : Bool) : Binary64 := ⟨negative, 0x7ff8000000000000, by decide⟩

def isNaN (x : Binary64) : Bool := infinite < x.magnitude

def isInfinite (x : Binary64) : Bool := x.magnitude = infinite

def isFinite (x : Binary64) : Bool := x.magnitude < infinite

def isZero (x : Binary64) : Bool := x.magnitude = 0

/-- The exponent field. -/
def field (x : Binary64) : Nat := x.magnitude / fieldWeight

/-- The fraction, with the implicit leading bit when the exponent field is not zero. -/
def significand (x : Binary64) : Nat :=
  if x.field = 0 then x.magnitude % fieldWeight else fieldWeight + x.magnitude % fieldWeight

/-- The power of two that the significand counts. -/
def exponent (x : Binary64) : Int :=
  (max x.field 1 : Nat) - 1075

/-- Equality of numbers: the two zeros are equal, and what is not a number equals nothing. -/
def numEq (x y : Binary64) : Bool :=
  !x.isNaN && !y.isNaN && (x == y || (x.isZero && y.isZero))

theorem ofBits_toBits (x : Binary64) : ofBits x.toBits = x := by
  obtain ⟨negative, m, hm⟩ := x
  have hw : signWeight = 9223372036854775808 := rfl
  have hb : (toBits ⟨negative, m, hm⟩).toNat = (if negative then signWeight else 0) + m := by
    rw [toBits, UInt64.toNat_ofNat_of_lt']
    cases negative <;> simp [UInt64.size] <;> omega
  simp only [ofBits, hb, Binary64.mk.injEq]
  cases negative
  · simpa [Nat.mod_eq_of_lt hm] using hm
  · simp [Nat.mod_eq_of_lt hm]

theorem isFinite_ofMagnitude (negative : Bool) (m : Nat) :
    (ofMagnitude negative m).isFinite = decide (m < infinite) := by
  have : min m infinite < infinite ↔ m < infinite := by omega
  simp [isFinite, ofMagnitude, this]

end Binary64

end Formula
