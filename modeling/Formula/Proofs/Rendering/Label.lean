import Std.Data.String.ToInt
import Formula.Node
import Formula.Proofs.Binary64.Text
import Formula.Proofs.Lexeme.Longest

/-!
# The words of a rendering

The label of a leaf is a word: it has no blank and no parenthesis in it, so that it ends where one of these stands
(`IsWord.append_inj`). The leaves that a strict session makes are legible, which is to say that they are names, numbers
that are not negative, and finite values without a sign. A legible leaf is known by its label (`label_injective`):
names begin with a letter or an underscore and numerals with a digit, and only that of a fixed-point value has anything
else than digits.
-/

namespace Formula

/-- The text has neither blanks nor parentheses. -/
def IsWord (w : List Char) : Prop :=
  ∀ c ∈ w, c ≠ ' ' ∧ c ≠ '(' ∧ c ≠ ')'

/-- A word cannot go on with the text. -/
def EndsWord (s : List Char) : Prop :=
  ∀ c ∈ s.head?, c = ' ' ∨ c = ')'

theorem endsWord_blank (s : List Char) : EndsWord (' ' :: s) := by
  rintro _ ⟨⟩
  exact .inl rfl

theorem endsWord_close (s : List Char) : EndsWord (')' :: s) := by
  rintro _ ⟨⟩
  exact .inr rfl

theorem endsWord_nil : EndsWord [] := nofun

theorem not_endsWord_cons {c : Char} {w s : List Char} (hw : IsWord (c :: w)) : ¬ EndsWord (c :: w ++ s) := by
  intro h
  obtain ⟨hblank, -, hclose⟩ := hw c List.mem_cons_self
  rcases h c rfl with hc | hc
  · exact hblank hc
  · exact hclose hc

/-- Where words end is seen from what stands behind them. -/
theorem IsWord.append_inj {w w' s s' : List Char} (hw : IsWord w) (hw' : IsWord w') (hs : EndsWord s)
    (hs' : EndsWord s') (h : w ++ s = w' ++ s') : w = w' ∧ s = s' := by
  induction w generalizing w' with
  | nil =>
    cases w' with
    | nil => exact ⟨rfl, h⟩
    | cons c w' => exact absurd (show EndsWord (c :: w' ++ s') from h ▸ hs) (not_endsWord_cons hw')
  | cons c w ih =>
    cases w' with
    | nil => exact absurd (show EndsWord (c :: w ++ s) from h ▸ hs') (not_endsWord_cons hw)
    | cons c' w' =>
      rw [List.cons_append, List.cons_append, List.cons.injEq] at h
      obtain ⟨rfl, h⟩ := h
      obtain ⟨rfl, rfl⟩ := ih (fun d hd => hw d (List.mem_cons_of_mem c hd))
        (fun d hd => hw' d (List.mem_cons_of_mem c hd)) h
      exact ⟨rfl, rfl⟩

/-! ## Legible leaves -/

open Scan

/-- The leaves that are known by their labels. -/
inductive Node.IsLegible : Node → Prop
  | identifier {name : String} {c : Char} {t : List Char} : name.toList = c :: t → isNameStart c = true →
      (∀ d ∈ t, isNamePart d = true) → IsLegible (.identifier name)
  | integer {value : Int64} : 0 ≤ value.toInt → IsLegible (.integer value)
  | fixed {value : Binary64} : value.isFinite = true → value.negative = false → IsLegible (.fixed value)

namespace Node

variable {node node' : Node}

theorem isNamePart_of_isNameStart {c : Char} (h : isNameStart c = true) : isNamePart c = true := by
  rw [isNamePart, h, Bool.true_or]

/-- The digits of a number that is not negative. -/
theorem toList_label_integer {value : Int64} (h : 0 ≤ value.toInt) :
    (integer value).label.toList = Nat.toDigits 10 value.toInt.toNat := by
  show (toString value.toInt).toList = _
  rw [Int.toString_eq_repr, Int.repr_eq_if, if_pos h, Nat.toList_repr]

theorem isDigit_of_mem_label_integer {value : Int64} (h : 0 ≤ value.toInt) :
    ∀ c ∈ (integer value).label.toList, c.isDigit = true := by
  rw [toList_label_integer h]
  exact fun c hc => Nat.isDigit_of_mem_toDigits (by decide) (by decide) hc

theorem isDigit_head_label_integer {value : Int64} (h : 0 ≤ value.toInt) :
    ∀ c ∈ (integer value).label.toList.head?, c.isDigit = true :=
  fun c hc => isDigit_of_mem_label_integer h c (List.mem_of_mem_head? hc)

theorem IsLegible.label_ne_nil (h : node.IsLegible) : node.label.toList ≠ [] := by
  cases h with
  | identifier hname _ _ => exact fun hnil => List.cons_ne_nil _ _ (hname.symm.trans hnil)
  | integer hvalue =>
    rw [toList_label_integer hvalue]
    exact Nat.toDigits_ne_nil
  | fixed hfinite hnegative => exact (Binary64.isDecimalText_text hfinite hnegative).ne_nil

/-- All characters of a label may stand in names, but for the point and the sign of a decimal. -/
theorem IsLegible.label_char (h : node.IsLegible) :
    ∀ c ∈ node.label.toList, isNamePart c = true ∨ c = '.' ∨ c = '-' := by
  have hdigit {c : Char} (hc : c.isDigit = true) : isNamePart c = true := by rw [isNamePart, hc, Bool.or_true]
  cases h with
  | @identifier name c t hname hc ht =>
    show ∀ c ∈ name.toList, _
    rw [hname]
    exact List.forall_mem_cons.mpr ⟨.inl (isNamePart_of_isNameStart hc), fun d hd => .inl (ht d hd)⟩
  | integer hvalue => exact fun c hc => .inl (hdigit (isDigit_of_mem_label_integer hvalue c hc))
  | fixed hfinite hnegative =>
    intro c hc
    rcases (Binary64.isDecimalText_text hfinite hnegative).char c hc with hc | rfl | rfl | rfl
    · exact .inl (hdigit hc)
    · exact .inr (.inl rfl)
    · exact .inl (by decide)
    · exact .inr (.inr rfl)

theorem IsLegible.isWord_label (h : node.IsLegible) : IsWord node.label.toList := by
  intro c hc
  have hplain : ∀ d, d = ' ' ∨ d = '(' ∨ d = ')' → ¬ (isNamePart d = true ∨ d = '.' ∨ d = '-') := by
    rintro d (rfl | rfl | rfl) <;> decide
  have hchar := h.label_char c hc
  exact ⟨fun hd => hplain c (.inl hd) hchar, fun hd => hplain c (.inr (.inl hd)) hchar,
    fun hd => hplain c (.inr (.inr hd)) hchar⟩

/-- A name is no numeral. -/
theorem label_ne_of_heads {c : Char} {t : List Char} (hname : node.label.toList = c :: t) (hc : isNameStart c = true)
    (hdigit : ∀ d ∈ node'.label.toList.head?, d.isDigit = true) : node.label ≠ node'.label := by
  intro h
  have hdigit := isNameStart_of_isDigit (hdigit c (by rw [← h, hname]; rfl))
  rw [hc] at hdigit
  cases hdigit

/-- The label of an integer has nothing but digits, unlike that of a fixed-point value. -/
theorem label_integer_ne_fixed {value : Int64} {x : Binary64} (hvalue : 0 ≤ value.toInt) (hfinite : x.isFinite = true)
    (hnegative : x.negative = false) : (integer value).label ≠ (fixed x).label := by
  intro h
  obtain ⟨c, hc, hmark⟩ := (Binary64.isDecimalText_text hfinite hnegative).mark
  have hdigit := isDigit_of_mem_label_integer hvalue c (by rw [h]; exact hc)
  rw [hmark] at hdigit
  cases hdigit

/-- Legible leaves with one label are one leaf. -/
theorem label_injective (h : node.IsLegible) (h' : node'.IsLegible) (hlabel : node.label = node'.label) :
    node = node' := by
  cases h with
  | identifier hname hc _ =>
    cases h' with
    | identifier _ _ _ => exact congrArg identifier hlabel
    | integer hvalue => exact absurd hlabel (label_ne_of_heads hname hc (isDigit_head_label_integer hvalue))
    | fixed hfinite hnegative =>
      exact absurd hlabel (label_ne_of_heads hname hc (Binary64.isDecimalText_text hfinite hnegative).head)
  | integer hvalue =>
    cases h' with
    | identifier hname hc _ => exact absurd hlabel.symm (label_ne_of_heads hname hc (isDigit_head_label_integer hvalue))
    | integer _ => exact congrArg integer (Int64.toInt_inj.mp (Int.repr_injective hlabel))
    | fixed hfinite hnegative => exact absurd hlabel (label_integer_ne_fixed hvalue hfinite hnegative)
  | fixed hfinite hnegative =>
    cases h' with
    | identifier hname hc _ =>
      exact absurd hlabel.symm (label_ne_of_heads hname hc (Binary64.isDecimalText_text hfinite hnegative).head)
    | integer hvalue => exact absurd hlabel.symm (label_integer_ne_fixed hvalue hfinite hnegative)
    | fixed hfinite' _ => exact congrArg fixed (Binary64.text_injective hfinite hfinite' hlabel)

end Node

end Formula
