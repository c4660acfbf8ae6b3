import Formula.Proofs.Lexeme.Partition

/-!
# Words and what stands between them

A layout is a source by its words: each with what is skipped before it, and what is skipped behind the last. If behind
every word comes a blank or nothing at all, then no word runs into what follows it, and a scan of the source finds the
words as they are, each at its place (`scan_source`). What stands between them leaves no trace but the places.
-/

namespace Formula

open Scan

/-! ## What a scan finds from an offset on -/

namespace Scan

/-- The entries of a source that starts at the offset. -/
def entries (n : Nat) (s : List Char) : List (Except Failure Lexeme) :=
  (entriesInto #[] n (pieces s)).toList

/-- No word can go on in the text: it is empty or starts with a blank. -/
def BlankAhead (s : List Char) : Prop :=
  ∀ c ∈ s.head?, isSpace c = true

instance (s : List Char) : Decidable (BlankAhead s) :=
  decidable_of_iff (s.head?.all isSpace = true) (by cases s <;> simp [BlankAhead])

variable {n : Nat} {c d : Char} {w s t gap : List Char} {role : Role} {kind : Kind}

@[simp] theorem entries_nil (n : Nat) : entries n [] = [] := by
  simp [entries, entriesInto]

theorem entries_cons (n : Nat) (c : Char) (s : List Char) :
    entries n (c :: s) = (entry n (firstPiece c s)).toList ++
      entries (n + bytes (firstPiece c s).text) (s.drop ((firstPiece c s).text.length - 1)) := by
  rw [entries, pieces_cons, entriesInto_cons]
  rfl

/-! ## Skipped matter -/

/-- A scan goes on behind all blanks at once. -/
theorem entries_dropWhile (n : Nat) (s : List Char) :
    entries n s = entries (n + bytes (s.takeWhile isSpace)) (s.dropWhile isSpace) := by
  cases s with
  | nil => rfl
  | cons c s =>
    by_cases hc : isSpace c = true
    · have hpiece : firstPiece c s = ⟨.skipped, c :: s.takeWhile isSpace⟩ := if_pos hc
      have hrest : s.drop (s.takeWhile isSpace).length = s.dropWhile isSpace := by
        conv => lhs; arg 2; rw [← List.takeWhile_append_dropWhile (p := isSpace) (l := s)]
        exact List.drop_left
      rw [entries_cons, hpiece, List.takeWhile_cons_of_pos hc, List.dropWhile_cons_of_pos hc, ← hrest]
      rfl
    · rw [List.takeWhile_cons_of_neg hc, List.dropWhile_cons_of_neg hc]
      rfl

theorem entries_blanks (hw : ∀ c ∈ w, isSpace c = true) (n : Nat) (s : List Char) :
    entries n (w ++ s) = entries (n + bytes w) s := by
  -- the blanks of the rest are passed together with these
  rw [entries_dropWhile, List.takeWhile_append_of_pos hw, List.dropWhile_append_of_pos hw, bytes_append,
    ← Nat.add_assoc, ← entries_dropWhile]

theorem entries_comment (ht : '\n' ∉ t) (hs : ∀ c ∈ s.head?, c = '\n') (n : Nat) :
    entries n ('/' :: '/' :: t ++ s) = entries (n + bytes ('/' :: '/' :: t)) s := by
  have hline : (t ++ s).takeWhile (· ≠ '\n') = t := by
    have hall : ∀ c ∈ t, decide (c ≠ '\n') = true := fun c hc => decide_eq_true fun h => ht (h ▸ hc)
    rw [List.takeWhile_append_of_pos hall]
    cases s with
    | nil => simp
    | cons c s => simp [hs c rfl]
  have hpiece : firstPiece '/' ('/' :: (t ++ s)) = ⟨.skipped, '/' :: '/' :: t⟩ := by
    have h : firstPiece '/' ('/' :: (t ++ s)) =
        ⟨.skipped, '/' :: ('/' :: (t ++ s)).takeWhile (· ≠ '\n')⟩ := rfl
    rw [h, List.takeWhile_cons_of_pos (by decide), hline]
  rw [List.cons_append, List.cons_append, entries_cons, hpiece]
  simp [entry]

theorem entries_skipped (h : Skipped gap s) (n : Nat) : entries n (gap ++ s) = entries (n + bytes gap) s := by
  induction h generalizing n with
  | nil => rfl
  | blanks hw _ ih =>
    rw [List.append_assoc, entries_blanks fun c hc => isSpace_iff.mpr (hw c hc), ih, bytes_append, Nat.add_assoc]
  | comment ht hs _ ih =>
    rw [List.append_assoc, entries_comment ht hs, ih, bytes_append, Nat.add_assoc]

/-! ## Words -/

/-- A text with a blank in it, but not in front, is a comment if it has a role. -/
theorem Begins.eq_skipped (h : Begins role c t) (hc : isSpace c = false) (hd : d ∈ t) (hspace : isSpace d = true) :
    role = .skipped ∧ c = '/' ∧ t.head? = some '/' := by
  have hdigit : ¬ d.isDigit = true := by simp [isDigit_of_isSpace hspace]
  cases h with
  | blank hc' _ => simp [hc] at hc'
  | comment _ => exact ⟨rfl, rfl, rfl⟩
  | name _ ht =>
    have hpart := isNamePart_iff.mp (ht d hd)
    have hstart := isNameStart_of_isSpace hspace
    simp_all [isNameStart]
  | integer _ ht => exact absurd (ht d hd) hdigit
  | fixed _ hu hy hv =>
    rcases List.mem_append.mp hd with hd | hd
    · exact absurd (hu d hd) hdigit
    · rcases List.mem_cons.mp hd with rfl | hd
      · cases hspace
      · rcases List.mem_cons.mp hd with rfl | hd
        · exact absurd hy hdigit
        · exact absurd (hv d hd) hdigit
  | mark _ => cases hd

/-- A word with a blank behind it begins nothing that is longer. -/
theorem Begins.not_append_blank (h : Begins (.lexeme kind) c t) (hd : isSpace d = true) (u : List Char) :
    ¬ Begins role c (t ++ d :: u) := by
  intro hlonger
  have hc : isSpace c = false := by
    by_contra hc
    cases (h.of_isSpace (Bool.not_eq_false _ ▸ hc)).1
  obtain ⟨-, rfl, hslash⟩ := hlonger.eq_skipped hc (by simp) hd
  rcases h.of_other rfl rfl rfl with ⟨hrole, -⟩ | ⟨_, -, rfl, -⟩
  · cases hrole
  · cases hslash
    cases hd

/-- A word is the first piece if it cannot go on. -/
theorem firstPiece_of_matches (hw : (Role.lexeme kind).Matches (c :: t)) (hs : BlankAhead s) :
    firstPiece c (t ++ s) = ⟨.lexeme kind, c :: t⟩ := by
  have hprefix : c :: t <+: c :: (t ++ s) := ⟨s, rfl⟩
  have hpiece := firstPiece_isPrefix c (t ++ s)
  rcases firstPiece_cases c (t ++ s) with ⟨-, hlongest⟩ | ⟨-, hnothing⟩
  · obtain ⟨u, hu⟩ := List.prefix_of_prefix_length_le hprefix hpiece (hlongest.length_le hprefix hw)
    cases u with
    | nil =>
      rw [List.append_nil] at hu
      rw [← hu] at hlongest
      rw [hlongest.eq_role hw, hu]
    | cons d u =>
      rw [← hu] at hlongest hpiece
      obtain ⟨v, hv⟩ := (List.prefix_append_right_inj (c :: t)).mp hpiece
      have hd : isSpace d = true := hs d (by rw [← hv]; rfl)
      exact absurd (begins_of_matches hlongest.matches_self) ((begins_of_matches hw).not_append_blank hd u)
  · exact absurd hw (hnothing _ _ hprefix)

theorem entries_word (hw : (Role.lexeme kind).Matches w) (hs : BlankAhead s) (n : Nat) :
    entries n (w ++ s) = .ok ⟨kind, String.ofList w, ⟨n, n + bytes w⟩⟩ :: entries (n + bytes w) s := by
  cases w with
  | nil => exact absurd hw (not_matches_nil _)
  | cons c t =>
    rw [List.cons_append, entries_cons, firstPiece_of_matches hw hs]
    simp [entry, Piece.string, bytes]

end Scan

/-! ## Layouts -/

/-- A source by its words: each with what stands before it, and what stands behind the last. -/
inductive Layout
  | last (gap : String)
  | word (gap : String) (kind : Kind) (text : String) (rest : Layout)

namespace Layout

def source : Layout → String
  | last gap => gap
  | word gap _ text rest => gap ++ text ++ rest.source

/-- The kinds and the texts of the words, without what stands between them. -/
def words : Layout → List (Kind × String)
  | last _ => []
  | word _ kind text rest => (kind, text) :: rest.words

/-- The words at their places in the source, which starts at the offset. -/
def lexemes (offset : Nat) : Layout → List Lexeme
  | last _ => []
  | word gap kind text rest =>
    let start := offset + gap.utf8ByteSize
    let stop := start + text.utf8ByteSize
    ⟨kind, text, ⟨start, stop⟩⟩ :: rest.lexemes stop

/-- Every word is written as its kind is, nothing but blanks and comments stands around the words, and what follows a
word starts with a blank if there is anything. A comment reaches to the end of its line, or to the end of the source. -/
inductive IsSpaced : Layout → Prop
  | last {gap : String} : Skipped gap.toList [] → IsSpaced (last gap)
  | word {gap : String} {kind : Kind} {text : String} {rest : Layout} :
      Skipped gap.toList (text ++ rest.source).toList → (Role.lexeme kind).Matches text.toList →
      BlankAhead rest.source.toList → IsSpaced rest → IsSpaced (word gap kind text rest)

variable {t : Layout}

theorem entries_source (h : t.IsSpaced) (n : Nat) : entries n t.source.toList = (t.lexemes n).map .ok := by
  have hbytes (text : String) : bytes text.toList = text.utf8ByteSize := by rw [bytes, String.ofList_toList]
  induction h generalizing n with
  | @last gap hgap =>
    have hend := entries_skipped hgap n
    rwa [List.append_nil, entries_nil] at hend
  | @word gap kind text rest hgap htext hahead _ ih =>
    rw [String.toList_append] at hgap
    rw [source, String.toList_append, String.toList_append, List.append_assoc, entries_skipped hgap,
      entries_word htext hahead, ih, hbytes, hbytes, String.ofList_toList]
    rfl

/-- The scan of words that are kept apart is the words, each at its place. -/
theorem scan_source (h : t.IsSpaced) : scan t.source = (t.lexemes 0).map .ok :=
  entries_source h 0

end Layout

end Formula
