import Formula.Numeral.Policy
import Formula.Proofs.Numeral.Parts

/-!
# The decimal in front of a text

What a decimal looks like, independent of how it is read:

    decimal   [+-]? mantissa ([eE][+-]?[0-9]+)?        mantissa   [0-9]+(\.[0-9]*)? | \.[0-9]+

`decimal?` reads exactly these texts (`isSome_decimal?_iff`), and `leadingDecimal` finds the longest of them in front of
a text, or nothing if there is none (`isLongestPrefix_leadingDecimal`). A power of ten whose digits are missing is given
back: what is found ends with the mantissa. Each of the two takes the text apart in the same order, so what a text is
split into is said once for both (`Parts.splitDigits_append`, `Parts.splitPoint_append`).
-/

namespace Formula.Numeral

variable {c : Char} {s s₁ s₂ rest sign whole point fraction mantissa power v : List Char}

/-! ## What decimals look like -/

/-- Digits, which may have one point among them or at either end. -/
def IsMantissa (w : List Char) : Prop :=
  IsDigits w ∨
  (∃ whole fraction, w = whole ++ '.' :: fraction ∧ IsDigits whole ∧ ∀ c ∈ fraction, c.isDigit = true) ∨
  ∃ fraction, w = '.' :: fraction ∧ IsDigits fraction

/-- A mark, a sign if there is one, and digits. -/
def IsPower (w : List Char) : Prop :=
  ∃ c sign digits, w = c :: (sign ++ digits) ∧ (c = 'e' ∨ c = 'E') ∧ IsSign sign ∧ IsDigits digits

/-- A sign if there is one, a mantissa, and a power of ten if there is one. -/
def IsDecimal (w : List Char) : Prop :=
  ∃ sign mantissa power, w = sign ++ (mantissa ++ power) ∧ IsSign sign ∧ IsMantissa mantissa ∧
    (power = [] ∨ IsPower power)

/-- A name of infinity or of what is not a number, in letters of either case, behind a sign if there is one. -/
def IsName (w : List Char) : Prop :=
  ∃ sign name, IsSign sign ∧ name ∈ ["inf", "infinity", "nan"] ∧ w.map Char.toLower = sign ++ name.toList

/-! ## The mantissa -/

/-- The digits of a mantissa up to its point, and the point with the digits behind it. -/
structure Parts (whole point : List Char) : Prop where
  isDigit_whole : ∀ c ∈ whole, c.isDigit = true
  point_eq : point = [] ∨ ∃ fraction, point = '.' :: fraction ∧ ∀ c ∈ fraction, c.isDigit = true
  some_digit : whole ≠ [] ∨ 1 < point.length

theorem isMantissa_iff : IsMantissa mantissa ↔ ∃ whole point, mantissa = whole ++ point ∧ Parts whole point := by
  constructor
  · rintro (⟨hne, hdigits⟩ | ⟨whole, fraction, rfl, ⟨hne, hdigits⟩, hfraction⟩ | ⟨fraction, rfl, hne, hfraction⟩)
    · exact ⟨mantissa, [], (List.append_nil _).symm, hdigits, .inl rfl, .inl hne⟩
    · exact ⟨whole, '.' :: fraction, rfl, hdigits, .inr ⟨fraction, rfl, hfraction⟩, .inl hne⟩
    · refine ⟨[], '.' :: fraction, rfl, nofun, .inr ⟨fraction, rfl, hfraction⟩, .inr ?_⟩
      exact Nat.succ_lt_succ (List.length_pos_iff.mpr hne)
  · rintro ⟨whole, point, rfl, hdigits, rfl | ⟨fraction, rfl, hfraction⟩, hsome⟩
    · exact .inl ⟨by simpa using hsome, by simpa using hdigits⟩
    · by_cases hne : whole = []
      · subst hne
        have hpos : fraction ≠ [] := by simpa [List.length_pos_iff] using hsome
        exact .inr (.inr ⟨fraction, rfl, hpos, hfraction⟩)
      · exact .inr (.inl ⟨whole, fraction, rfl, ⟨hne, hdigits⟩, hfraction⟩)

/-- The text does not go on with what a mantissa is made of. -/
def EndsMantissa (s : List Char) : Prop :=
  ∀ c ∈ s.head?, c.isDigit = false ∧ c ≠ '.'

theorem splitPoint_of_ne (h : ∀ c ∈ s.head?, c ≠ '.') : splitPoint s = ([], s) := by
  cases s with
  | nil => rfl
  | cons c s => simp [splitPoint, h c rfl]

theorem splitPoint_fst (s : List Char) :
    (splitPoint s).1 = [] ∨ ∃ fraction, (splitPoint s).1 = '.' :: fraction ∧ ∀ c ∈ fraction, c.isDigit = true := by
  unfold splitPoint
  split
  · exact .inr ⟨_, rfl, forall_splitDigits _⟩
  · exact .inl rfl

namespace Parts

/-- A mantissa begins with a digit or its point. -/
theorem head_eq (h : Parts whole point) (rest : List Char) :
    ∀ c ∈ (whole ++ (point ++ rest)).head?, c.isDigit = true ∨ c = '.' := by
  cases whole with
  | cons d whole =>
    rintro _ ⟨⟩
    exact .inl (h.isDigit_whole d List.mem_cons_self)
  | nil =>
    rcases h.point_eq with rfl | ⟨fraction, rfl, -⟩
    · simpa using h.some_digit
    · rintro _ ⟨⟩
      exact .inr rfl

theorem unsigned (h : Parts whole point) (rest : List Char) : Unsigned (whole ++ (point ++ rest)) := by
  intro c hc
  rcases h.head_eq rest c hc with hdigit | rfl
  · exact ne_sign_of_isDigit hdigit
  · decide

theorem isBlank_head (h : Parts whole point) (rest : List Char) :
    ∀ c ∈ (whole ++ (point ++ rest)).head?, Text.isBlank c = false := by
  intro c hc
  rcases h.head_eq rest c hc with hdigit | rfl
  · exact Text.isBlank_eq_false_of_isDigit hdigit
  · decide

theorem splitDigits_append (h : Parts whole point) (hrest : EndsMantissa rest) :
    splitDigits (whole ++ (point ++ rest)) = (whole, point ++ rest) := by
  refine splitDigits_append_of h.isDigit_whole ?_
  rcases h.point_eq with rfl | ⟨fraction, rfl, -⟩
  · exact fun c hc => (hrest c hc).1
  · exact isDigit_head_point _

theorem splitPoint_append (h : Parts whole point) (hrest : EndsMantissa rest) :
    splitPoint (point ++ rest) = (point, rest) := by
  rcases h.point_eq with rfl | ⟨fraction, rfl, hfraction⟩
  · exact splitPoint_of_ne fun c hc => (hrest c hc).2
  · exact splitPoint_append_of hfraction fun c hc => (hrest c hc).1

end Parts

/-! ## The power of ten -/

theorem isExponentMark_iff : isExponentMark c = true ↔ c = 'e' ∨ c = 'E' := by
  simp [isExponentMark]

theorem IsPower.endsMantissa (h : IsPower power) (rest : List Char) : EndsMantissa (power ++ rest) := by
  obtain ⟨c, sign, digits, rfl, rfl | rfl, -⟩ := h
  · rintro _ ⟨⟩
    decide
  · rintro _ ⟨⟩
    decide

theorem unsigned_of_isDigits {digits : List Char} (h : IsDigits digits) (rest : List Char) :
    Unsigned (digits ++ rest) := by
  refine unsigned_of_isDigit fun c hc => ?_
  rw [List.head?_append, List.head?_eq_some_head h.1] at hc
  exact h.2 c (Option.mem_some.mp hc ▸ List.head_mem h.1)

theorem isSome_power?_iff : (power? s).isSome = true ↔ s = [] ∨ IsPower s := by
  constructor
  · cases s with
    | nil => exact fun _ => .inl rfl
    | cons c s =>
      intro h
      simp only [power?, Option.isSome_ite, Bool.and_eq_true, isExponentMark_iff] at h
      refine .inr ⟨c, (splitSign s).1, (splitSign s).2, ?_, h.1, isSign_splitSign s, isDigits_iff.mp h.2⟩
      rw [splitSign_append]
  · rintro (rfl | ⟨c, sign, digits, rfl, hmark, hsign, hdigits⟩)
    · rfl
    · have hsplit : splitSign (sign ++ digits) = (sign, digits) :=
        splitSign_append_of hsign (by simpa using unsigned_of_isDigits hdigits [])
      simp [power?, hsplit, isExponentMark_iff.mpr hmark, isDigits_iff.mpr hdigits]

theorem leadingPower_isPrefix (s : List Char) : leadingPower s <+: s := by
  unfold leadingPower
  split
  · exact List.prefix_rfl
  · rename_i c s
    dsimp only
    split
    · refine List.cons_prefix_cons.mpr ⟨rfl, (splitDigits (splitSign s).2).2, ?_⟩
      show (splitSign s).1 ++ (splitDigits (splitSign s).2).1 ++ (splitDigits (splitSign s).2).2 = s
      rw [List.append_assoc, splitDigits_append, splitSign_append]
    · exact List.nil_prefix

theorem leadingPower_eq (s : List Char) : leadingPower s = [] ∨ IsPower (leadingPower s) := by
  unfold leadingPower
  split
  · exact .inl rfl
  · rename_i c s
    dsimp only
    split
    · rename_i h
      simp only [Bool.and_eq_true, isExponentMark_iff, Bool.not_eq_true', List.isEmpty_eq_false_iff] at h
      exact .inr ⟨c, _, _, rfl, h.1, isSign_splitSign s, h.2, forall_splitDigits _⟩
    · exact .inl rfl

/-- A power of ten in front of a text is found, with all digits that follow. -/
theorem IsPower.length_le (h : IsPower power) (rest : List Char) :
    power.length ≤ (leadingPower (power ++ rest)).length := by
  obtain ⟨c, sign, digits, rfl, hmark, hsign, hdigits⟩ := h
  have hsplit : splitSign (sign ++ digits ++ rest) = (sign, digits ++ rest) := by
    rw [List.append_assoc]
    exact splitSign_append_of hsign (unsigned_of_isDigits hdigits rest)
  have hall : digits.length ≤ (splitDigits (digits ++ rest)).1.length :=
    length_le_splitDigits (List.prefix_append _ _) hdigits.2
  have hne : (splitDigits (digits ++ rest)).1.isEmpty = false := by
    rw [List.isEmpty_eq_false_iff, ← List.length_pos_iff]
    exact Nat.lt_of_lt_of_le (List.length_pos_iff.mpr hdigits.1) hall
  rw [List.cons_append, leadingPower, hsplit]
  simp only [isExponentMark_iff.mpr hmark, hne, Bool.not_false, Bool.and_self, if_true, List.cons_append,
    List.length_cons, List.length_append]
  omega

/-! ## Decimals -/

/-- The parts of a decimal, in front of anything that does not go on with a mantissa. -/
theorem IsDecimal.exists_parts (h : IsDecimal v) :
    ∃ sign whole point power, v = sign ++ (whole ++ (point ++ power)) ∧ IsSign sign ∧ Parts whole point ∧
      (power = [] ∨ IsPower power) := by
  obtain ⟨sign, mantissa, power, rfl, hsign, hmantissa, hpower⟩ := h
  obtain ⟨whole, point, rfl, hparts⟩ := isMantissa_iff.mp hmantissa
  exact ⟨sign, whole, point, power, by rw [List.append_assoc], hsign, hparts, hpower⟩

theorem isDecimal_of_parts (hsign : IsSign sign) (hparts : Parts whole point) (hpower : power = [] ∨ IsPower power) :
    IsDecimal (sign ++ (whole ++ (point ++ power))) :=
  ⟨sign, whole ++ point, power, by rw [List.append_assoc], hsign, isMantissa_iff.mpr ⟨_, _, rfl, hparts⟩, hpower⟩

theorem IsDecimal.ne_nil (h : IsDecimal v) : v ≠ [] := by
  obtain ⟨sign, whole, point, power, rfl, -, hparts, -⟩ := h.exists_parts
  rcases hparts.some_digit with hne | hlen
  · simp [hne]
  · have : point ≠ [] := List.ne_nil_of_length_pos (by omega)
    simp [this]

theorem IsDecimal.dropBlank_eq (h : IsDecimal v) : Text.dropBlank v = v := by
  obtain ⟨sign, whole, point, power, rfl, hsign, hparts, -⟩ := h.exists_parts
  exact dropBlank_sign_append hsign (hparts.isBlank_head power)

/-- Whether there is no digit in either part, as the parts are asked for it. -/
theorem no_digit_eq_false_iff :
    (whole.isEmpty && decide (point.length ≤ 1)) = false ↔ whole ≠ [] ∨ 1 < point.length := by
  cases whole <;> simp

theorem isEmpty_drop_one (point : List Char) : (point.drop 1).isEmpty = decide (point.length ≤ 1) := by
  rw [Bool.eq_iff_iff, List.isEmpty_iff, List.drop_eq_nil_iff, decide_eq_true_iff]

/-- The digits that a text has in front after its sign, and the point behind them. -/
theorem parts_split (s : List Char)
    (h : (splitDigits s).1 ≠ [] ∨ 1 < (splitPoint (splitDigits s).2).1.length) :
    Parts (splitDigits s).1 (splitPoint (splitDigits s).2).1 :=
  ⟨forall_splitDigits s, splitPoint_fst _, h⟩

theorem split_append (s : List Char) :
    (splitSign s).1 ++ ((splitDigits (splitSign s).2).1 ++ ((splitPoint (splitDigits (splitSign s).2).2).1 ++
      (splitPoint (splitDigits (splitSign s).2).2).2)) = s := by
  rw [splitPoint_append, splitDigits_append, splitSign_append]

/-- What is read as a decimal is what looks like one. -/
theorem isSome_decimal?_iff : (decimal? s).isSome = true ↔ IsDecimal s := by
  constructor
  · intro h
    simp only [decimal?, isEmpty_drop_one] at h
    split at h
    · cases h
    · rename_i hsome
      rw [Bool.not_eq_true, no_digit_eq_false_iff] at hsome
      rw [Option.isSome_map, isSome_power?_iff] at h
      rw [← split_append s]
      exact isDecimal_of_parts (isSign_splitSign s) (parts_split _ hsome) h
  · intro h
    obtain ⟨sign, whole, point, power, rfl, hsign, hparts, hpower⟩ := h.exists_parts
    have hends : EndsMantissa power := by
      rcases hpower with rfl | hpower
      · intro c hc
        cases hc
      · simpa using hpower.endsMantissa []
    simp only [decimal?, splitSign_append_of hsign (hparts.unsigned power), hparts.splitDigits_append hends,
      hparts.splitPoint_append hends, isEmpty_drop_one, no_digit_eq_false_iff.mpr hparts.some_digit]
    rw [if_neg Bool.false_ne_true, Option.isSome_map]
    exact isSome_power?_iff.mpr hpower

/-! ## The decimal in front -/

/-- What is found, by the parts of the text. -/
theorem leadingDecimal_of_split {s₃ : List Char} (hsign : splitSign s = (sign, s₁))
    (hwhole : splitDigits s₁ = (whole, s₂)) (hpoint : splitPoint s₂ = (point, s₃))
    (hsome : whole ≠ [] ∨ 1 < point.length) :
    leadingDecimal s = sign ++ (whole ++ (point ++ leadingPower s₃)) := by
  simp [leadingDecimal, hsign, hwhole, hpoint, no_digit_eq_false_iff.mpr hsome]

theorem leadingDecimal_isPrefix (s : List Char) : leadingDecimal s <+: s := by
  unfold leadingDecimal
  dsimp only
  split
  · exact List.nil_prefix
  · obtain ⟨rest, hrest⟩ := leadingPower_isPrefix (splitPoint (splitDigits (splitSign s).2).2).2
    refine ⟨rest, ?_⟩
    simp only [List.append_assoc, hrest]
    exact split_append s

/-- Something is found if there is a digit on one side of the point, or else nothing. -/
theorem leadingDecimal_eq_append
    (h : (splitDigits (splitSign s).2).1 ≠ [] ∨ 1 < (splitPoint (splitDigits (splitSign s).2).2).1.length) :
    leadingDecimal s = (splitSign s).1 ++ ((splitDigits (splitSign s).2).1 ++
      ((splitPoint (splitDigits (splitSign s).2).2).1 ++ leadingPower (splitPoint (splitDigits (splitSign s).2).2).2)) :=
  leadingDecimal_of_split rfl rfl rfl h

theorem isDecimal_leadingDecimal
    (h : (splitDigits (splitSign s).2).1 ≠ [] ∨ 1 < (splitPoint (splitDigits (splitSign s).2).2).1.length) :
    IsDecimal (leadingDecimal s) := by
  rw [leadingDecimal_eq_append h]
  exact isDecimal_of_parts (isSign_splitSign s) (parts_split _ h) (leadingPower_eq _)

theorem leadingDecimal_eq_nil
    (h : ¬ ((splitDigits (splitSign s).2).1 ≠ [] ∨ 1 < (splitPoint (splitDigits (splitSign s).2).2).1.length)) :
    leadingDecimal s = [] := by
  simp only [not_or, not_not, Nat.not_lt] at h
  simp [leadingDecimal, h.1, h.2]

theorem leadingDecimal_eq (s : List Char) : leadingDecimal s = [] ∨ IsDecimal (leadingDecimal s) := by
  by_cases h : (splitDigits (splitSign s).2).1 ≠ [] ∨ 1 < (splitPoint (splitDigits (splitSign s).2).2).1.length
  · exact .inr (isDecimal_leadingDecimal h)
  · exact .inl (leadingDecimal_eq_nil h)

/-- Digits in front of a text are split off together with those that follow. -/
theorem splitDigits_append_digits {w : List Char} (hw : ∀ c ∈ w, c.isDigit = true) (rest : List Char) :
    splitDigits (w ++ rest) = (w ++ (splitDigits rest).1, (splitDigits rest).2) := by
  rw [splitDigits, List.takeWhile_append_of_pos hw, List.dropWhile_append_of_pos hw]
  rfl

/-- No decimal in front of a text is longer than what is found. If the decimal has a power of ten, its mantissa is the
one that is found; if it has none, its last part may be a part of what is found. -/
theorem IsDecimal.length_le (h : IsDecimal v) (rest : List Char) : v.length ≤ (leadingDecimal (v ++ rest)).length := by
  obtain ⟨sign, whole, point, power, rfl, hsign, hparts, hpower⟩ := h.exists_parts
  have hs : splitSign (sign ++ (whole ++ (point ++ (power ++ rest)))) = (sign, whole ++ (point ++ (power ++ rest))) :=
    splitSign_append_of hsign (hparts.unsigned _)
  simp only [List.append_assoc]
  rcases hpower with rfl | hpower
  · rcases hparts.point_eq with rfl | ⟨fraction, rfl, hfraction⟩
    · have hwhole : whole ≠ [] := by simpa using hparts.some_digit
      rw [leadingDecimal_of_split hs (splitDigits_append_digits hparts.isDigit_whole _) rfl (.inl (by simp [hwhole]))]
      simp only [List.length_append, List.length_nil]
      omega
    · have hdigits : splitDigits (whole ++ ('.' :: (fraction ++ rest))) = (whole, '.' :: (fraction ++ rest)) :=
        splitDigits_append_of hparts.isDigit_whole (isDigit_head_point _)
      have hpoint : splitPoint ('.' :: (fraction ++ rest)) =
          ('.' :: (fraction ++ (splitDigits rest).1), (splitDigits rest).2) := by
        rw [splitPoint, splitDigits_append_digits hfraction]
      have hsome : whole ≠ [] ∨ 1 < ('.' :: (fraction ++ (splitDigits rest).1)).length := by
        refine hparts.some_digit.imp_right fun hlen => Nat.lt_of_lt_of_le hlen ?_
        simp
      rw [leadingDecimal_of_split hs hdigits hpoint hsome]
      simp only [List.length_append, List.length_cons, List.length_nil]
      omega
  · have hends := hpower.endsMantissa rest
    rw [leadingDecimal_of_split hs (hparts.splitDigits_append hends) (hparts.splitPoint_append hends) hparts.some_digit]
    have := hpower.length_le rest
    simp only [List.length_append] at this ⊢
    omega

/-- What is found in front of a text is the longest decimal there, and it is nothing only if there is none. -/
theorem isLongestPrefix_leadingDecimal (s : List Char) :
    IsLongestPrefix IsDecimal (leadingDecimal s) s ∨ leadingDecimal s = [] ∧ ∀ v, v <+: s → ¬ IsDecimal v := by
  have hle : ∀ {v}, v <+: s → IsDecimal v → v.length ≤ (leadingDecimal s).length := by
    rintro v ⟨rest, rfl⟩ hv
    exact hv.length_le rest
  rcases leadingDecimal_eq s with hnil | hdecimal
  · refine .inr ⟨hnil, fun v hv hdecimal => hdecimal.ne_nil ?_⟩
    simpa [hnil] using hle hv hdecimal
  · exact .inl ⟨leadingDecimal_isPrefix s, hdecimal, hle⟩

theorem IsDecimal.leadingDecimal_eq (h : IsDecimal s) : leadingDecimal s = s := by
  rcases isLongestPrefix_leadingDecimal s with hlongest | ⟨-, hnone⟩
  · exact hlongest.eq_of_holds h
  · exact absurd h (hnone s List.prefix_rfl)

/-! ## Names -/

theorem map_toLower_of_isSign (h : IsSign sign) : sign.map Char.toLower = sign := by
  rcases h with rfl | rfl | rfl <;> decide

/-- What names a value is a name. -/
theorem named?_eq_none (h : ¬ IsName s) : named? s = none := by
  have hname {name : String} (hmem : name ∈ ["inf", "infinity", "nan"]) :
      String.ofList ((splitSign s).2.map Char.toLower) ≠ name := by
    intro heq
    refine h ⟨(splitSign s).1, name, isSign_splitSign s, hmem, ?_⟩
    have happend := congrArg (List.map Char.toLower) (splitSign_append s)
    rw [List.map_append, map_toLower_of_isSign (isSign_splitSign s)] at happend
    rw [← happend, ← heq, String.toList_ofList]
  simp [named?, hname]

theorem fixed?_eq_decimal? (h : ¬ IsName s) : fixed? s = decimal? s := by
  rw [fixed?, named?_eq_none h, Option.or_none]

theorem exists_fixed?_of_isDecimal (h : IsDecimal s) : ∃ x, decimal? s = some x ∧ fixed? s = some x := by
  obtain ⟨x, hx⟩ := Option.isSome_iff_exists.mp (isSome_decimal?_iff.mpr h)
  exact ⟨x, hx, by rw [fixed?, hx, Option.some_or]⟩

/-- A text that is a decimal as a whole is read as the decimal that it begins with. -/
theorem leadingFixed_of_decimal? {x : Binary64} (h : decimal? s = some x) : leadingFixed s = x := by
  have hs : IsDecimal s := isSome_decimal?_iff.mp (by rw [h]; rfl)
  rw [leadingFixed, hs.dropBlank_eq, hs.leadingDecimal_eq, h, Option.getD_some]

theorem value?_permissive_fixed {text : String} (h : ¬ IsName text.toList) :
    (Policy.permissive.fixed text).value? = some (leadingFixed text.toList) := by
  rw [Policy.fixed, Policy.value?_settle_permissive, fixed?_eq_decimal? h]
  cases hx : decimal? text.toList with
  | none => rfl
  | some x => rw [leadingFixed_of_decimal? hx, Option.getD_some]

theorem value?_strict_fixed_iff {text : String} (h : ¬ IsName text.toList) {x : Binary64} :
    (Policy.strict.fixed text).value? = some x ↔
      IsDecimal text.toList ∧ fixed? text.toList = some x ∧ x.isFinite = true := by
  rw [Policy.fixed, Policy.value?_settle_strict, fixed?_eq_decimal? h, Option.filter_eq_some_iff]
  constructor
  · rintro ⟨hx, hfinite⟩
    exact ⟨isSome_decimal?_iff.mp (by rw [hx]; rfl), hx, hfinite⟩
  · rintro ⟨-, hx, hfinite⟩
    exact ⟨hx, hfinite⟩

end Formula.Numeral
