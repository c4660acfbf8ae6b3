import Formula.Numeral.Integer
import Formula.Numeral.Fixed

/-!
# Policies for numerals that do not convert

A strict reader refuses a numeral that is malformed or out of range; a permissive one takes the number it begins with
and says so.
-/

namespace Formula

/-- What to do with a numeral that does not convert. -/
inductive Policy
  | strict
  | permissive
deriving DecidableEq, Repr, Inhabited

/-- The outcome of reading a numeral. -/
inductive Conversion (α : Type)
  /-- The whole text is a number. -/
  | whole (value : α)
  /-- The text is taken for the number it begins with. -/
  | leading (value : α)
  | refused
deriving DecidableEq, Repr

namespace Conversion

variable {α β : Type}

def map (f : α → β) : Conversion α → Conversion β
  | whole v => .whole (f v)
  | leading v => .leading (f v)
  | refused => .refused

def value? : Conversion α → Option α
  | whole v => some v
  | leading v => some v
  | refused => none

theorem value?_map (f : α → β) (c : Conversion α) : (c.map f).value? = c.value?.map f := by
  cases c <;> rfl

end Conversion

namespace Policy

variable {α : Type}

/-- What a policy makes of a numeral: `whole` if the text is a number, and the number it begins with if need be. -/
def settle (policy : Policy) (whole : Option α) (leading : α) : Conversion α :=
  match whole, policy with
  | some v, _ => .whole v
  | none, strict => .refused
  | none, permissive => .leading leading

/-- Reads an integer. -/
def integer (policy : Policy) (text : String) : Conversion Int64 :=
  policy.settle (Numeral.integer? text.toList) (Numeral.leadingInteger text.toList)

/-- Reads a fixed-point number; only a permissive reader takes one that is not finite. -/
def fixed (policy : Policy) (text : String) : Conversion Binary64 :=
  match policy with
  | strict => strict.settle ((Numeral.fixed? text.toList).filter Binary64.isFinite) .zero
  | permissive => permissive.settle (Numeral.fixed? text.toList) (Numeral.leadingFixed text.toList)

theorem value?_settle_permissive (whole : Option α) (leading : α) :
    (permissive.settle whole leading).value? = some (whole.getD leading) := by
  cases whole <;> rfl

theorem value?_settle_strict (whole : Option α) (leading : α) : (strict.settle whole leading).value? = whole := by
  cases whole <;> rfl

end Policy

end Formula
