import Formula.Proofs.Numeral.Leading

/-!
# Decimals found by their bytes

A reader that walks over the bytes of a text by their positions, without decoding them, and returns the position where
the decimal in front ends. It ends where `leadingDecimal` ends (`decimalEnd_utf8`), which is never inside a character:
the bytes that are tested for are codes of characters below 128, and every other character begins with a byte that is
none of these. With it goes what the policies make of a fixed-point number, by what its text looks like.
-/

namespace Formula.Numeral

/-! ## The reader -/

/-- Whether there is a byte at a position which is the code of such a character. -/
def byteAt (q : Char → Bool) (bytes : List UInt8) (i : Nat) : Bool :=
  bytes[i]?.any fun b => q (Char.ofUInt8 b)

/-- Whether the character is one of the two signs. -/
def isSignMark (c : Char) : Bool :=
  c = '+' || c = '-'

def signEnd (bytes : List UInt8) (i : Nat) : Nat :=
  if byteAt isSignMark bytes i then i + 1 else i

theorem lt_length_of_byteAt {q : Char → Bool} {bytes : List UInt8} {i : Nat} (h : byteAt q bytes i = true) :
    i < bytes.length := by
  by_contra hi
  simp [byteAt, List.getElem?_eq_none (Nat.not_lt.mp hi)] at h

def digitsEnd (bytes : List UInt8) (i : Nat) : Nat :=
  if h : byteAt Char.isDigit bytes i then
    have := lt_length_of_byteAt h
    digitsEnd bytes (i + 1)
  else i
termination_by bytes.length - i

def pointEnd (bytes : List UInt8) (i : Nat) : Nat :=
  if byteAt (· = '.') bytes i then digitsEnd bytes (i + 1) else i

/-- The end of the power of ten at a position; without digits it is not taken. -/
def powerEnd (bytes : List UInt8) (i : Nat) : Nat :=
  let start := signEnd bytes (i + 1)
  if byteAt isExponentMark bytes i && decide (start < digitsEnd bytes start) then digitsEnd bytes start else i

/-- The end of the decimal in front, if there is one: there must be a digit on one side of the point. -/
def decimalEnd (bytes : List UInt8) : Option Nat :=
  let start := signEnd bytes 0
  let wholeEnd := digitsEnd bytes start
  let mantissaEnd := pointEnd bytes wholeEnd
  if wholeEnd - start + (mantissaEnd - (wholeEnd + 1)) = 0 then none else some (powerEnd bytes mantissaEnd)

/-! ## Bytes of characters -/

/-- The bytes of a text. -/
def utf8 (s : List Char) : List UInt8 :=
  s.flatMap String.utf8EncodeChar

/-- How many bytes a text has. -/
def width (s : List Char) : Nat :=
  (utf8 s).length

variable {c : Char} {s pre t w : List Char} {q : Char → Bool}

theorem utf8_append (s t : List Char) : utf8 (s ++ t) = utf8 s ++ utf8 t :=
  List.flatMap_append

@[simp] theorem width_append (s t : List Char) : width (s ++ t) = width s + width t := by
  simp [width, utf8_append]

/-- The test is for characters below 128 only. -/
def IsAscii (q : Char → Bool) : Prop :=
  ∀ c, q c = true → c.toNat < 128

theorem isAscii_isDigit : IsAscii Char.isDigit := by
  intro c h
  simp only [Char.isDigit, Bool.and_eq_true, decide_eq_true_eq, UInt32.le_iff_toNat_le] at h
  exact Nat.lt_of_le_of_lt h.2 (by decide)

theorem isAscii_isSignMark : IsAscii isSignMark := by
  intro c h
  simp only [isSignMark, Bool.or_eq_true, decide_eq_true_eq] at h
  rcases h with rfl | rfl <;> decide

theorem isAscii_point : IsAscii (· = '.') := by
  intro c h
  rw [of_decide_eq_true h]
  decide

theorem isAscii_isExponentMark : IsAscii isExponentMark := by
  intro c h
  rcases isExponentMark_iff.mp h with rfl | rfl <;> decide

/-- A character below 128 is one byte, its code. -/
theorem utf8EncodeChar_of_lt (h : c.toNat < 128) :
    ∃ b, String.utf8EncodeChar c = [b] ∧ Char.ofUInt8 b = c := by
  refine ⟨UInt8.ofNat c.val.toNat, if_pos (Nat.le_of_lt_succ h), ?_⟩
  apply Char.ext
  apply UInt32.toNat_inj.mp
  show (UInt8.ofNat c.val.toNat).toUInt32.toNat = c.val.toNat
  rw [UInt8.toNat_toUInt32, UInt8.toNat_ofNat']
  exact Nat.mod_eq_of_lt (Nat.lt_trans h (by decide))

/-- Every other character begins with a byte that is no code below 128. -/
theorem utf8EncodeChar_of_le (h : 128 ≤ c.toNat) :
    ∃ b bs, String.utf8EncodeChar c = b :: bs ∧ 128 ≤ (Char.ofUInt8 b).toNat := by
  have hlead {n : Nat} (hlo : 128 ≤ n) (hhi : n < 256) : 128 ≤ (Char.ofUInt8 (UInt8.ofNat n)).toNat := by
    show 128 ≤ (UInt8.ofNat n).toUInt32.toNat
    rw [UInt8.toNat_toUInt32, UInt8.toNat_ofNat']
    omega
  change 128 ≤ c.val.toNat at h
  simp only [String.utf8EncodeChar, if_neg (Nat.not_le.mpr h)]
  split
  · exact ⟨_, _, rfl, hlead (by omega) (by omega)⟩
  · split
    · exact ⟨_, _, rfl, hlead (by omega) (by omega)⟩
    · exact ⟨_, _, rfl, hlead (by omega) (by omega)⟩

theorem width_singleton (h : c.toNat < 128) : width [c] = 1 := by
  obtain ⟨b, hb, -⟩ := utf8EncodeChar_of_lt h
  simp [width, utf8, hb]

theorem width_of_ascii (h : ∀ c ∈ w, c.toNat < 128) : width w = w.length := by
  induction w with
  | nil => rfl
  | cons c w ih =>
    obtain ⟨hc, hw⟩ := List.forall_mem_cons.mp h
    rw [← List.singleton_append, width_append, width_singleton hc, ih hw, List.length_append]
    rfl

/-- The byte behind a part of a text is tested as the character is. -/
theorem byteAt_utf8 (hq : IsAscii q) (hs : pre ++ t = s) : byteAt q (utf8 s) (width pre) = t.head?.any q := by
  have hbyte : (utf8 s)[width pre]? = (utf8 t)[0]? := by
    rw [← hs, utf8_append, width, List.getElem?_append_right (Nat.le_refl _), Nat.sub_self]
  rw [byteAt, hbyte]
  cases t with
  | nil => rfl
  | cons c t =>
    by_cases hc : c.toNat < 128
    · obtain ⟨b, hb, rfl⟩ := utf8EncodeChar_of_lt hc
      simp [utf8, hb]
    · obtain ⟨b, bs, hb, hle⟩ := utf8EncodeChar_of_le (Nat.not_lt.mp hc)
      have hbit : q (Char.ofUInt8 b) = false := by
        by_contra h
        exact absurd (hq _ (Bool.not_eq_false _ ▸ h)) (Nat.not_lt.mpr hle)
      have hchar : q c = false := by
        by_contra h
        exact hc (hq _ (Bool.not_eq_false _ ▸ h))
      simp [utf8, hb, hbit, hchar]

/-! ## Where the reader stops -/

theorem width_snoc (h : c.toNat < 128) (pre : List Char) : width (pre ++ [c]) = width pre + 1 := by
  rw [width_append, width_singleton h]

theorem signEnd_utf8 (hs : pre ++ t = s) : signEnd (utf8 s) (width pre) = width (pre ++ (splitSign t).1) := by
  rw [signEnd, byteAt_utf8 isAscii_isSignMark hs]
  cases t with
  | nil => simp [splitSign]
  | cons c t =>
    by_cases hc : isSignMark c = true
    · rw [List.head?_cons, Option.any_some, if_pos hc, ← width_snoc (isAscii_isSignMark c hc)]
      simp only [isSignMark, Bool.or_eq_true, decide_eq_true_eq] at hc
      rcases hc with rfl | rfl <;> rfl
    · rw [List.head?_cons, Option.any_some, if_neg hc, splitSign_of_unsigned]
      · simp
      · rintro _ ⟨⟩
        simpa [isSignMark] using hc

theorem digitsEnd_utf8 (hs : pre ++ t = s) : digitsEnd (utf8 s) (width pre) = width (pre ++ (splitDigits t).1) := by
  induction t generalizing pre with
  | nil =>
    rw [digitsEnd, dif_neg (by simp [byteAt_utf8 isAscii_isDigit hs])]
    simp [splitDigits]
  | cons c t ih =>
    rw [digitsEnd]
    by_cases hc : c.isDigit = true
    · have hmore : (pre ++ [c]) ++ t = s := by simpa using hs
      rw [dif_pos (by simp [byteAt_utf8 isAscii_isDigit hs, hc]), ← width_snoc (isAscii_isDigit c hc), ih hmore]
      simp [splitDigits, hc]
    · rw [dif_neg (by simp [byteAt_utf8 isAscii_isDigit hs, hc])]
      simp [splitDigits, hc]

theorem pointEnd_utf8 (hs : pre ++ t = s) : pointEnd (utf8 s) (width pre) = width (pre ++ (splitPoint t).1) := by
  rw [pointEnd, byteAt_utf8 isAscii_point hs]
  cases t with
  | nil => simp [splitPoint]
  | cons c t =>
    by_cases hc : c = '.'
    · subst hc
      have hmore : (pre ++ ['.']) ++ t = s := by simpa using hs
      rw [if_pos (by simp), ← width_snoc (isAscii_point '.' rfl), digitsEnd_utf8 hmore, List.append_assoc]
      rfl
    · rw [splitPoint_of_ne (by simpa using hc)]
      simp [hc]

/-- Digits that end behind where they begin are digits that are there. -/
theorem width_lt_width_append (pre : List Char) : width pre < width (pre ++ w) ↔ w ≠ [] := by
  cases w with
  | nil => simp
  | cons c w =>
    have := c.utf8Size_pos
    rw [width_append, ← List.singleton_append, width_append]
    simp only [width, utf8, List.flatMap_singleton, String.length_utf8EncodeChar]
    simp
    omega

theorem powerEnd_utf8 (hs : pre ++ t = s) : powerEnd (utf8 s) (width pre) = width (pre ++ leadingPower t) := by
  rw [powerEnd, byteAt_utf8 isAscii_isExponentMark hs]
  cases t with
  | nil => simp [leadingPower]
  | cons c t =>
    by_cases hc : isExponentMark c = true
    · have hmark : (pre ++ [c]) ++ t = s := by simpa using hs
      have hsign : (pre ++ [c]) ++ (splitSign t).1 ++ (splitSign t).2 = s := by
        rw [List.append_assoc, splitSign_append, hmark]
      rw [← width_snoc (isAscii_isExponentMark c hc), signEnd_utf8 hmark, digitsEnd_utf8 hsign]
      simp only [width_lt_width_append, leadingPower, hc, List.head?_cons, Option.any_some, Bool.true_and]
      by_cases hdigits : (splitDigits (splitSign t).2).1 = []
      · simp [hdigits]
      · simp [hdigits]
    · simp [leadingPower, hc]

theorem width_splitDigits (s : List Char) : width (splitDigits s).1 = (splitDigits s).1.length :=
  width_of_ascii fun c hc => isAscii_isDigit c (forall_splitDigits s c hc)

theorem width_splitPoint (s : List Char) : width (splitPoint s).1 = (splitPoint s).1.length := by
  refine width_of_ascii ?_
  rcases splitPoint_fst s with hnil | ⟨fraction, hpoint, hfraction⟩
  · rw [hnil]
    exact List.forall_mem_nil _
  · rw [hpoint]
    exact List.forall_mem_cons.mpr ⟨by decide, fun c hc => isAscii_isDigit c (hfraction c hc)⟩

/-- The reader stops where the decimal that is found ends, and nowhere if there is none. -/
theorem decimalEnd_utf8 (s : List Char) :
    decimalEnd (utf8 s) = if leadingDecimal s = [] then none else some (width (leadingDecimal s)) := by
  -- the parts in turn, each behind those before it
  have hstart := signEnd_utf8 (List.nil_append s)
  have hwholeEnd := digitsEnd_utf8 (splitSign_append s)
  have hbehindWhole : (splitSign s).1 ++ (splitDigits (splitSign s).2).1 ++ (splitDigits (splitSign s).2).2 = s := by
    rw [List.append_assoc, splitDigits_append, splitSign_append]
  have hmantissaEnd := pointEnd_utf8 hbehindWhole
  have hbehindPoint : (splitSign s).1 ++ (splitDigits (splitSign s).2).1 ++
      (splitPoint (splitDigits (splitSign s).2).2).1 ++ (splitPoint (splitDigits (splitSign s).2).2).2 = s := by
    rw [List.append_assoc, splitPoint_append, hbehindWhole]
  have hpowerEnd := powerEnd_utf8 hbehindPoint
  have hwhole := width_splitDigits (splitSign s).2
  have hpoint := width_splitPoint (splitDigits (splitSign s).2).2
  rw [show width [] = 0 from rfl, List.nil_append] at hstart
  rw [decimalEnd, hstart, hwholeEnd, hmantissaEnd, hpowerEnd]
  simp only [width_append, hwhole, hpoint]
  by_cases hsome : (splitDigits (splitSign s).2).1 ≠ [] ∨ 1 < (splitPoint (splitDigits (splitSign s).2).2).1.length
  · rw [if_neg (isDecimal_leadingDecimal hsome).ne_nil, if_neg, leadingDecimal_eq_append hsome]
    · simp only [width_append, hwhole, hpoint, Nat.add_assoc]
    · rw [← List.length_pos_iff] at hsome
      omega
  · rw [if_pos (leadingDecimal_eq_nil hsome), if_pos]
    rw [not_or, not_not, Nat.not_lt] at hsome
    rw [hsome.1, List.length_nil]
    omega

/-! ## What a policy decides -/

/-- How each policy reads a fixed-point number that is no name, and where the bytes end that are read. -/
theorem fixed_decided (text : String) (h : ¬ IsName text.toList) :
    ((∃ decimal i x, IsLongestPrefix IsDecimal decimal (Text.dropBlank text.toList) ∧
        decimalEnd (utf8 (Text.dropBlank text.toList)) = some i ∧
        (utf8 (Text.dropBlank text.toList)).take i = utf8 decimal ∧
        fixed? decimal = some x ∧ (Policy.permissive.fixed text).value? = some x) ∨
      (∀ v, v <+: Text.dropBlank text.toList → ¬ IsDecimal v) ∧
        decimalEnd (utf8 (Text.dropBlank text.toList)) = none ∧
        (Policy.permissive.fixed text).value? = some .zero) ∧
    (∀ x, (Policy.strict.fixed text).value? = some x ↔
      IsDecimal text.toList ∧ fixed? text.toList = some x ∧ x.isFinite = true) ∧
    ∀ x, (Policy.strict.fixed text).value? = some x → (Policy.permissive.fixed text).value? = some x := by
  refine ⟨?_, fun x => value?_strict_fixed_iff h, fun x hx => ?_⟩
  · rw [value?_permissive_fixed h, decimalEnd_utf8, leadingFixed]
    rcases isLongestPrefix_leadingDecimal (Text.dropBlank text.toList) with hlongest | ⟨hnil, hnone⟩
    · obtain ⟨x, hdecimal, hfixed⟩ := exists_fixed?_of_isDecimal hlongest.holds
      obtain ⟨rest, hrest⟩ := hlongest.isPrefix
      refine .inl ⟨_, _, x, hlongest, if_neg hlongest.holds.ne_nil, ?_, hfixed, by rw [hdecimal, Option.getD_some]⟩
      rw [← hrest, utf8_append, hrest]
      exact List.take_left
    · refine .inr ⟨hnone, if_pos hnil, ?_⟩
      rw [hnil]
      rfl
  · obtain ⟨-, hfixed, -⟩ := (value?_strict_fixed_iff h).mp hx
    rw [fixed?_eq_decimal? h] at hfixed
    rw [value?_permissive_fixed h, leadingFixed_of_decimal? hfixed]

/-- A power of ten without digits, behind a fraction without whole digits and before a character of two bytes. -/
theorem fixed_decided_open_power :
    ¬ IsName " -.5e+é".toList ∧
    ∃ decimal x, IsLongestPrefix IsDecimal decimal (Text.dropBlank " -.5e+é".toList) ∧ fixed? decimal = some x ∧
      (Policy.permissive.fixed " -.5e+é").value? = some x := by
  have hname : ¬ IsName " -.5e+é".toList := by
    rintro ⟨sign, name, hsign, hname, heq⟩
    simp only [List.mem_cons, List.not_mem_nil, or_false] at hname
    rcases hsign with rfl | rfl | rfl <;> rcases hname with rfl | rfl | rfl <;> exact absurd heq (by decide)
  refine ⟨hname, ?_⟩
  rcases (fixed_decided " -.5e+é" hname).1 with ⟨decimal, -, x, hlongest, -, -, hfixed, hvalue⟩ | ⟨hnone, -⟩
  · exact ⟨decimal, x, hlongest, hfixed, hvalue⟩
  · exact absurd (isSome_decimal?_iff.mp (by decide)) (hnone "-.5".toList (by decide))

end Formula.Numeral
