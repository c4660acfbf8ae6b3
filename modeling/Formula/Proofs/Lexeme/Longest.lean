import Mathlib.Data.List.TakeWhile
import Formula.Lexeme.Scan

/-!
# The longest piece

What each piece of a source looks like by itself, independent of how sources are scanned:

    skipped     [ \t\r\n]+ | //[^\n]*        integer   [0-9]+
    identifier  [A-Za-z_][A-Za-z0-9_]*       fixed     [0-9]+\.[0-9]+

and every punctuation mark for itself. `Role.Matches` says that a text has a role in this sense. The first piece of a
source is the longest text there that has one, and a character is stray only if no text that starts with it has any
(`firstPiece_cases`). What else a text can be follows from its first character, so there is one lemma for each class of
these.
-/

namespace Formula

open Scan

/-- The text is one or more digits. -/
def IsDigits (w : List Char) : Prop :=
  w ≠ [] ∧ ∀ c ∈ w, c.isDigit = true

/-- The text has the role, whatever stands behind it. No text is stray in itself. -/
def Role.Matches : Role → List Char → Prop
  | skipped, w =>
    (w ≠ [] ∧ ∀ c ∈ w, c = ' ' ∨ c = '\t' ∨ c = '\r' ∨ c = '\n') ∨ ∃ t, w = '/' :: '/' :: t ∧ '\n' ∉ t
  | lexeme .identifier, w =>
    ∃ c t, w = c :: t ∧ (c.isAlpha = true ∨ c = '_') ∧ ∀ d ∈ t, d.isAlpha = true ∨ d.isDigit = true ∨ d = '_'
  | lexeme .integer, w => IsDigits w
  | lexeme .fixed, w => ∃ u v, w = u ++ '.' :: v ∧ IsDigits u ∧ IsDigits v
  | lexeme kind, w => ∃ c, w = [c] ∧ Kind.ofPunctuation? c = some kind
  | stray, _ => False

/-- Of all texts at the start of a source, the text is the longest that has a role, and it has no other. -/
structure Role.IsLongest (role : Role) (w s : List Char) : Prop where
  matches_self : role.Matches w
  length_le {role' : Role} {v : List Char} : v <+: s → role'.Matches v → v.length ≤ w.length
  eq_role {role' : Role} : role'.Matches w → role' = role

/-- No text at the start of the source has a role. -/
def NothingMatches (s : List Char) : Prop :=
  ∀ (role : Role) (v : List Char), v <+: s → ¬ role.Matches v

namespace Scan

variable {c d : Char} {s t v : List Char} {role : Role} {kind : Kind}

/-! ## Characters -/

theorem isSpace_iff : isSpace c = true ↔ c = ' ' ∨ c = '\t' ∨ c = '\r' ∨ c = '\n' := by
  simp [isSpace, or_assoc]

theorem isNamePart_iff : isNamePart c = true ↔ c.isAlpha = true ∨ c.isDigit = true ∨ c = '_' := by
  simp only [isNamePart, isNameStart, Bool.or_eq_true, decide_eq_true_eq, or_assoc, or_comm (a := c = '_')]

theorem eq_of_ofPunctuation? (h : Kind.ofPunctuation? c = some kind) :
    c = '+' ∨ c = '-' ∨ c = '*' ∨ c = '/' ∨ c = '(' ∨ c = ')' ∨ c = '=' ∨ c = ';' := by
  unfold Kind.ofPunctuation? at h
  split at h <;> simp_all

/-- A punctuation mark starts nothing else. -/
theorem of_ofPunctuation? (h : Kind.ofPunctuation? c = some kind) :
    isSpace c = false ∧ isNameStart c = false ∧ c.isDigit = false := by
  rcases eq_of_ofPunctuation? h with rfl | rfl | rfl | rfl | rfl | rfl | rfl | rfl <;> decide

theorem isNameStart_of_isSpace (h : isSpace c = true) : isNameStart c = false := by
  rcases isSpace_iff.mp h with rfl | rfl | rfl | rfl <;> decide

theorem isDigit_of_isSpace (h : isSpace c = true) : c.isDigit = false := by
  rcases isSpace_iff.mp h with rfl | rfl | rfl | rfl <;> decide

theorem isDigit_point : Char.isDigit '.' = false := by decide

theorem isNameStart_of_isDigit (h : c.isDigit = true) : isNameStart c = false := by
  have hne : c ≠ '_' := by
    rintro rfl
    revert h
    decide
  have halpha : c.isAlpha = false := by
    show (decide (c.val ≥ 'A'.val ∧ c.val ≤ 'Z'.val) || (c.val ≥ 'a'.val && c.val ≤ 'z'.val)) = false
    simp only [Char.isDigit] at h
    grind
  simp [isNameStart, hne, halpha]

/-! ## A text that has a role, by its first character -/

/-- The first character of a text, and what else it takes for the text to have the role. -/
inductive Begins : Role → Char → List Char → Prop
  | blank {c : Char} {t : List Char} : isSpace c = true → (∀ d ∈ t, isSpace d = true) → Begins .skipped c t
  | comment {u : List Char} : '\n' ∉ u → Begins .skipped '/' ('/' :: u)
  | name {c : Char} {t : List Char} :
      isNameStart c = true → (∀ d ∈ t, isNamePart d = true) → Begins (.lexeme .identifier) c t
  | integer {c : Char} {t : List Char} :
      c.isDigit = true → (∀ d ∈ t, d.isDigit = true) → Begins (.lexeme .integer) c t
  | fixed {c d : Char} {u v : List Char} : c.isDigit = true → (∀ x ∈ u, x.isDigit = true) →
      d.isDigit = true → (∀ x ∈ v, x.isDigit = true) → Begins (.lexeme .fixed) c (u ++ '.' :: d :: v)
  | mark {c : Char} {kind : Kind} : Kind.ofPunctuation? c = some kind → Begins (.lexeme kind) c []

theorem not_matches_nil (role : Role) : ¬ role.Matches [] := by
  intro h
  cases role with
  | skipped => simp [Role.Matches] at h
  | stray => exact h
  | lexeme kind => cases kind <;> simp [Role.Matches, IsDigits] at h

theorem isDigits_cons : IsDigits (c :: t) ↔ c.isDigit = true ∧ ∀ d ∈ t, d.isDigit = true := by
  simp [IsDigits]

theorem begins_of_matches (h : role.Matches (c :: t)) : Begins role c t := by
  have hmark : ∀ {kind : Kind}, (∃ d, c :: t = [d] ∧ Kind.ofPunctuation? d = some kind) →
      Begins (.lexeme kind) c t := by
    rintro kind ⟨d, hd, hkind⟩
    obtain ⟨rfl, rfl⟩ := List.cons.inj hd
    exact .mark hkind
  cases role with
  | stray => exact h.elim
  | skipped =>
    rcases h with ⟨-, hall⟩ | ⟨u, hu, hn⟩
    · refine .blank (isSpace_iff.mpr (hall c List.mem_cons_self)) fun d hd => isSpace_iff.mpr (hall d ?_)
      exact List.mem_cons_of_mem _ hd
    · obtain ⟨rfl, rfl⟩ := List.cons.inj hu
      exact .comment hn
  | lexeme kind =>
    cases kind with
    | identifier =>
      obtain ⟨d, u, hu, hd, hall⟩ := h
      obtain ⟨rfl, rfl⟩ := List.cons.inj hu
      exact .name (by simpa [isNameStart] using hd) fun x hx => isNamePart_iff.mpr (hall x hx)
    | integer => exact .integer (isDigits_cons.mp h).1 (isDigits_cons.mp h).2
    | fixed =>
      obtain ⟨u, v, huv, hu, hv⟩ := h
      obtain ⟨x, u, rfl⟩ := List.exists_cons_of_ne_nil hu.1
      obtain ⟨y, v, rfl⟩ := List.exists_cons_of_ne_nil hv.1
      obtain ⟨rfl, rfl⟩ := List.cons.inj huv
      obtain ⟨hx, hu⟩ := isDigits_cons.mp hu
      obtain ⟨hy, hv⟩ := isDigits_cons.mp hv
      exact .fixed hx hu hy hv
    | plus | minus | star | slash | leftParen | rightParen | assign | semicolon => exact hmark h

theorem Begins.matches_cons (h : Begins role c t) : role.Matches (c :: t) := by
  cases h with
  | blank hc ht =>
    have hspaces : ∀ d ∈ t, d = ' ' ∨ d = '\t' ∨ d = '\r' ∨ d = '\n' := fun d hd => isSpace_iff.mp (ht d hd)
    exact .inl ⟨List.cons_ne_nil _ _, List.forall_mem_cons.mpr ⟨isSpace_iff.mp hc, hspaces⟩⟩
  | comment hu => exact .inr ⟨_, rfl, hu⟩
  | name hc ht => exact ⟨c, t, rfl, by simpa [isNameStart] using hc, fun d hd => isNamePart_iff.mp (ht d hd)⟩
  | integer hc ht => exact isDigits_cons.mpr ⟨hc, ht⟩
  | @fixed _ d u v hc hu hd hv => exact ⟨c :: u, d :: v, rfl, isDigits_cons.mpr ⟨hc, hu⟩, isDigits_cons.mpr ⟨hd, hv⟩⟩
  | @mark _ kind hkind =>
    have hmark : ∃ d, [c] = [d] ∧ Kind.ofPunctuation? d = some kind := ⟨c, rfl, hkind⟩
    cases kind with
    | plus | minus | star | slash | leftParen | rightParen | assign | semicolon => exact hmark
    | identifier | integer | fixed =>
      unfold Kind.ofPunctuation? at hkind
      split at hkind <;> cases hkind

/-! What may follow is settled by the class of the first character. -/

theorem Begins.of_isSpace (h : Begins role c t) (hc : isSpace c = true) :
    role = .skipped ∧ ∀ d ∈ t, isSpace d = true := by
  cases h with
  | blank _ ht => exact ⟨rfl, ht⟩
  | comment _ => cases hc
  | name hn _ => simp [isNameStart_of_isSpace hc] at hn
  | integer hd _ => simp [isDigit_of_isSpace hc] at hd
  | fixed hd _ _ _ => simp [isDigit_of_isSpace hc] at hd
  | mark hk => simp [of_ofPunctuation? hk] at hc

theorem Begins.of_isNameStart (h : Begins role c t) (hc : isNameStart c = true) :
    role = .lexeme .identifier ∧ ∀ d ∈ t, isNamePart d = true := by
  cases h with
  | blank hs _ => simp [isNameStart_of_isSpace hs] at hc
  | comment _ => cases hc
  | name _ ht => exact ⟨rfl, ht⟩
  | integer hd _ => simp [isNameStart_of_isDigit hd] at hc
  | fixed hd _ _ _ => simp [isNameStart_of_isDigit hd] at hc
  | mark hk => simp [of_ofPunctuation? hk] at hc

theorem Begins.of_isDigit (h : Begins role c t) (hc : c.isDigit = true) :
    role = .lexeme .integer ∧ (∀ d ∈ t, d.isDigit = true) ∨
      role = .lexeme .fixed ∧ ∃ u d v, t = u ++ '.' :: d :: v ∧ (∀ x ∈ u, x.isDigit = true) ∧ d.isDigit = true ∧
        ∀ x ∈ v, x.isDigit = true := by
  cases h with
  | blank hs _ => simp [isDigit_of_isSpace hs] at hc
  | comment _ => cases hc
  | name hn _ => simp [isNameStart_of_isDigit hc] at hn
  | integer _ ht => exact .inl ⟨rfl, ht⟩
  | @fixed _ d u v _ hu hd hv => exact .inr ⟨rfl, u, d, v, rfl, hu, hd, hv⟩
  | mark hk => simp [of_ofPunctuation? hk] at hc

theorem Begins.of_other (h : Begins role c t) (hs : isSpace c = false) (hn : isNameStart c = false)
    (hd : c.isDigit = false) :
    role = .skipped ∧ c = '/' ∧ (∃ u, t = '/' :: u ∧ '\n' ∉ u) ∨
      ∃ kind, role = .lexeme kind ∧ t = [] ∧ Kind.ofPunctuation? c = some kind := by
  cases h with
  | blank hs' _ => simp [hs] at hs'
  | @comment u hu => exact .inl ⟨rfl, rfl, u, rfl, hu⟩
  | name hn' _ => simp [hn] at hn'
  | integer hd' _ => simp [hd] at hd'
  | fixed hd' _ _ _ => simp [hd] at hd'
  | @mark _ kind hk => exact .inr ⟨kind, rfl, rfl, hk⟩

/-- It is enough to look at what may follow the first character. -/
theorem isLongest_cons (h : Begins role c t) (hle : ∀ role' v, v <+: s → Begins role' c v → v.length ≤ t.length)
    (heq : ∀ role', Begins role' c t → role' = role) : role.IsLongest (c :: t) (c :: s) where
  matches_self := h.matches_cons
  length_le {role' v} hv hm := by
    rcases List.prefix_cons_iff.mp hv with rfl | ⟨w, rfl, hw⟩
    · exact absurd hm (not_matches_nil _)
    · exact Nat.succ_le_succ (hle _ _ hw (begins_of_matches hm))
  eq_role {role'} hm := heq _ (begins_of_matches hm)

theorem nothingMatches_cons (h : ∀ role v, v <+: s → ¬ Begins role c v) : NothingMatches (c :: s) := by
  intro role v hv hm
  rcases List.prefix_cons_iff.mp hv with rfl | ⟨w, rfl, hw⟩
  · exact not_matches_nil _ hm
  · exact h role w hw (begins_of_matches hm)

/-! ## The first piece -/

/-- A text of one class of characters is no longer than all that there is of the class. -/
theorem length_le_length_takeWhile {p : Char → Bool} (hv : v <+: s) (h : ∀ d ∈ v, p d = true) :
    v.length ≤ (s.takeWhile p).length := by
  obtain ⟨r, rfl⟩ := hv
  rw [List.takeWhile_append_of_pos h, List.length_append]
  exact Nat.le_add_right _ _

theorem isLongest_blank (s : List Char) (hc : isSpace c = true) :
    Role.skipped.IsLongest (c :: s.takeWhile isSpace) (c :: s) :=
  isLongest_cons (.blank hc fun _ => List.mem_takeWhile_imp)
    (fun _ _ hv hb => length_le_length_takeWhile hv (hb.of_isSpace hc).2) (fun _ hb => (hb.of_isSpace hc).1)

theorem isLongest_name (s : List Char) (hc : isNameStart c = true) :
    (Role.lexeme .identifier).IsLongest (c :: s.takeWhile isNamePart) (c :: s) :=
  isLongest_cons (.name hc fun _ => List.mem_takeWhile_imp)
    (fun _ _ hv hb => length_le_length_takeWhile hv (hb.of_isNameStart hc).2) (fun _ hb => (hb.of_isNameStart hc).1)

/-- The digits before a point are all that there are. -/
theorem takeWhile_isDigit_of_prefix {u : List Char} (hv : u ++ '.' :: v <+: s) (hu : ∀ x ∈ u, x.isDigit = true) :
    s.takeWhile Char.isDigit = u ∧ '.' :: v <+: s.dropWhile Char.isDigit := by
  obtain ⟨r, rfl⟩ := hv
  rw [List.append_assoc, List.takeWhile_append_of_pos hu, List.dropWhile_append_of_pos hu]
  simp [isDigit_point]

/-- A numeral with a point, if a digit follows the point. -/
theorem isLongest_fixed (hc : c.isDigit = true) (hs : s.dropWhile Char.isDigit = '.' :: d :: t)
    (hd : d.isDigit = true) :
    (Role.lexeme .fixed).IsLongest (c :: (s.takeWhile Char.isDigit ++ '.' :: d :: t.takeWhile Char.isDigit))
      (c :: s) := by
  refine isLongest_cons (.fixed hc (fun _ => List.mem_takeWhile_imp) hd fun _ => List.mem_takeWhile_imp)
    (fun role v hv hb => ?_) (fun role hb => ?_)
  · rcases hb.of_isDigit hc with ⟨-, hall⟩ | ⟨-, u, x, w, rfl, hu, hx, hw⟩
    · have := length_le_length_takeWhile hv hall
      rw [List.length_append]
      omega
    · obtain ⟨rfl, hprefix⟩ := takeWhile_isDigit_of_prefix hv hu
      rw [hs] at hprefix
      have hw' : w <+: t := (List.cons_prefix_cons.mp (List.cons_prefix_cons.mp hprefix).2).2
      have := length_le_length_takeWhile hw' hw
      simp only [List.length_append, List.length_cons]
      omega
  · rcases hb.of_isDigit hc with ⟨-, hall⟩ | ⟨h, -⟩
    · have hpoint := hall '.' (by simp)
      rw [isDigit_point] at hpoint
      cases hpoint
    · exact h

/-- A numeral without a point, if none follows or no digit behind it. -/
theorem isLongest_integer (hc : c.isDigit = true)
    (hs : ∀ d t, s.dropWhile Char.isDigit = '.' :: d :: t → d.isDigit = false) :
    (Role.lexeme .integer).IsLongest (c :: s.takeWhile Char.isDigit) (c :: s) := by
  refine isLongest_cons (.integer hc fun _ => List.mem_takeWhile_imp) (fun role v hv hb => ?_) (fun role hb => ?_)
  · rcases hb.of_isDigit hc with ⟨-, hall⟩ | ⟨-, u, x, w, rfl, hu, hx, hw⟩
    · exact length_le_length_takeWhile hv hall
    · obtain ⟨-, r, hr⟩ := takeWhile_isDigit_of_prefix hv hu
      have := hs x (w ++ r) (by rw [← hr]; rfl)
      simp [hx] at this
  · rcases hb.of_isDigit hc with ⟨h, -⟩ | ⟨-, u, x, w, hu, -⟩
    · exact h
    · have hpoint : Char.isDigit '.' = true := List.mem_takeWhile_imp (by rw [hu]; simp)
      rw [isDigit_point] at hpoint
      cases hpoint

theorem isLongest_numeral (s : List Char) (hc : c.isDigit = true) :
    (numeral c s).role.IsLongest (numeral c s).text (c :: s) := by
  unfold numeral
  split
  · rename_i d t hs
    split
    · rename_i hd
      exact isLongest_fixed hc hs hd
    · rename_i hd
      refine isLongest_integer hc fun d' t' hs' => ?_
      rw [hs] at hs'
      cases hs'
      simpa using hd
  · rename_i hs
    exact isLongest_integer hc fun d t hs' => absurd hs' (hs d t)

theorem isLongest_comment (s : List Char) :
    Role.skipped.IsLongest ('/' :: '/' :: s.takeWhile (· ≠ '\n')) ('/' :: '/' :: s) := by
  refine isLongest_cons (.comment fun h => ?_) (fun role v hv hb => ?_) (fun role hb => ?_)
  · simpa using List.mem_takeWhile_imp h
  · rcases hb.of_other rfl rfl rfl with ⟨-, -, u, rfl, hu⟩ | ⟨_, -, rfl, -⟩
    · have hu' : u <+: s := (List.cons_prefix_cons.mp hv).2
      refine Nat.succ_le_succ (length_le_length_takeWhile hu' fun d hd => ?_)
      have : d ≠ '\n' := fun h => hu (h ▸ hd)
      simpa using this
    · exact Nat.zero_le _
  · rcases hb.of_other rfl rfl rfl with ⟨h, -⟩ | ⟨_, -, h, -⟩
    · exact h
    · cases h

/-- A punctuation mark, unless it opens a comment. -/
theorem isLongest_mark (hk : Kind.ofPunctuation? c = some kind) (hs : c = '/' → s.head? ≠ some '/') :
    (Role.lexeme kind).IsLongest [c] (c :: s) := by
  obtain ⟨hspace, hname, hdigit⟩ := of_ofPunctuation? hk
  refine isLongest_cons (.mark hk) (fun role v hv hb => ?_) (fun role hb => ?_)
  · rcases hb.of_other hspace hname hdigit with ⟨-, hc, u, rfl, -⟩ | ⟨_, -, rfl, -⟩
    · obtain ⟨r, rfl⟩ := hv
      exact absurd rfl (hs hc)
    · exact Nat.le_refl _
  · rcases hb.of_other hspace hname hdigit with ⟨-, -, _, h, -⟩ | ⟨kind', rfl, -, hk'⟩
    · cases h
    · rw [Option.some.inj (hk'.symm.trans hk)]

/-- A character of no class starts nothing. -/
theorem nothingMatches_of_other (hspace : isSpace c = false) (hname : isNameStart c = false)
    (hdigit : c.isDigit = false) (hk : Kind.ofPunctuation? c = none) : NothingMatches (c :: s) := by
  refine nothingMatches_cons fun role v _ hb => ?_
  rcases hb.of_other hspace hname hdigit with ⟨-, rfl, -⟩ | ⟨kind, -, -, hk'⟩
  · cases hk
  · rw [hk] at hk'
    cases hk'

/-- The first piece of a source is the longest text there that has a role; it is a stray character only if there is no
such text. -/
theorem firstPiece_cases (c : Char) (s : List Char) :
    (firstPiece c s).role ≠ .stray ∧ (firstPiece c s).role.IsLongest (firstPiece c s).text (c :: s) ∨
      (firstPiece c s) = ⟨.stray, [c]⟩ ∧ NothingMatches (c :: s) := by
  unfold firstPiece
  split
  · rename_i hspace
    exact .inl ⟨nofun, isLongest_blank s hspace⟩
  split
  · rename_i hname
    exact .inl ⟨nofun, isLongest_name s hname⟩
  split
  · rename_i hdigit
    refine .inl ⟨?_, isLongest_numeral s hdigit⟩
    unfold numeral
    split <;> (try split) <;> nofun
  split
  · rename_i hcomment
    simp only [Bool.and_eq_true, decide_eq_true_eq] at hcomment
    obtain ⟨rfl, hhead⟩ := hcomment
    obtain ⟨t, rfl⟩ : ∃ t, s = '/' :: t := List.head?_eq_some_iff.mp hhead
    exact .inl ⟨nofun, isLongest_comment t⟩
  · rename_i hspace hname hdigit hcomment
    simp only [Bool.not_eq_true] at hspace hname hdigit
    unfold single
    split
    · rename_i hk
      exact .inl ⟨nofun, isLongest_mark hk fun hc hs => hcomment (by simp [hc, hs])⟩
    · rename_i hk
      exact .inr ⟨rfl, nothingMatches_of_other hspace hname hdigit hk⟩

end Scan

end Formula
