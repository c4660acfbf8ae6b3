import Formula.Proofs.Lexeme.Longest

/-!
# A scan partitions its source

`Cuts n s es` says that the source `s`, which starts at the byte offset `n`, is cut into skipped matter and the places
of the entries `es`, each piece being the longest where it starts. The scan of a source cuts it (`cuts_scan`), so its
entries stand in order and apart, each is the slice of the source at its place, and all that is left between them is
blanks and comments (`scan_partition`).
-/

namespace Formula

namespace Scan

/-- How many bytes the characters are in UTF-8. -/
def bytes (w : List Char) : Nat :=
  (String.ofList w).utf8ByteSize

/-- The text that an entry of a scan is about. -/
def entryText : Except Failure Lexeme → String
  | .ok l => l.text
  | .error (.unrecognized _ text) => text
  | .error _ => ""

/-- The bytes that an entry of a scan is about. -/
def entrySpan : Except Failure Lexeme → Span
  | .ok l => l.span
  | .error (.unrecognized offset text) => ⟨offset, offset + text.utf8ByteSize⟩
  | .error _ => .origin

/-- The first text, which has the second behind it, is skipped: blanks, and comments that reach to the end of their line
or of the source. -/
inductive Skipped : List Char → List Char → Prop
  | nil {s : List Char} : Skipped [] s
  | blanks {w gap s : List Char} :
      (∀ c ∈ w, c = ' ' ∨ c = '\t' ∨ c = '\r' ∨ c = '\n') → Skipped gap s → Skipped (w ++ gap) s
  | comment {t gap s : List Char} :
      '\n' ∉ t → (∀ c ∈ (gap ++ s).head?, c = '\n') → Skipped gap s → Skipped ('/' :: '/' :: t ++ gap) s

/-- The entry is about the text `w`, which has `s` behind it, at the offset: it is the longest lexeme there, or a
character that starts nothing. -/
inductive IsEntry (offset : Nat) (w s : List Char) : Except Failure Lexeme → Prop
  | lexeme {kind : Kind} : (Role.lexeme kind).IsLongest w (w ++ s) →
      IsEntry offset w s (.ok ⟨kind, String.ofList w, ⟨offset, offset + bytes w⟩⟩)
  | stray {c : Char} : w = [c] → NothingMatches (w ++ s) →
      IsEntry offset w s (.error (.unrecognized offset (String.ofList w)))

/-- The source, which starts at the offset, is cut into skipped matter and the entries. -/
inductive Cuts : Nat → List Char → List (Except Failure Lexeme) → Prop
  | nil {n : Nat} : Cuts n [] []
  | skip {n : Nat} {w s : List Char} {es : List (Except Failure Lexeme)} :
      Role.skipped.IsLongest w (w ++ s) → Cuts (n + bytes w) s es → Cuts n (w ++ s) es
  | entry {n : Nat} {w s : List Char} {e : Except Failure Lexeme} {es : List (Except Failure Lexeme)} :
      IsEntry n w s e → Cuts (n + bytes w) s es → Cuts n (w ++ s) (e :: es)

variable {n : Nat} {w s gap : List Char} {e : Except Failure Lexeme} {es : List (Except Failure Lexeme)}

@[simp] theorem bytes_nil : bytes [] = 0 := rfl

@[simp] theorem bytes_append (w s : List Char) : bytes (w ++ s) = bytes w + bytes s := by
  rw [bytes, String.ofList_append, String.utf8ByteSize_append]
  rfl

theorem bytes_pos (h : w ≠ []) : 0 < bytes w := by
  rw [Nat.pos_iff_ne_zero, bytes, ne_eq, String.utf8ByteSize_eq_zero_iff]
  intro hw
  exact h (by simpa using congrArg String.toList hw)

theorem eq_nil_of_bytes (h : bytes w = 0) : w = [] := by
  by_contra hw
  have := bytes_pos hw
  omega

/-! ## The scan cuts the source -/

/-- Every scan of pieces cuts what they are pieces of. -/
theorem cuts_pieces (n : Nat) (s : List Char) : Cuts n s (entriesInto #[] n (pieces s)).toList := by
  match s with
  | [] =>
    rw [pieces_nil]
    exact .nil
  | c :: s =>
    have ih := cuts_pieces (n + bytes (firstPiece c s).text) (s.drop ((firstPiece c s).text.length - 1))
    have happend := firstPiece_append c s
    rw [pieces_cons, entriesInto_cons]
    rcases firstPiece_cases c s with ⟨hrole, hlongest⟩ | ⟨hstray, hnothing⟩
    · rw [← happend] at hlongest ⊢
      cases hr : (firstPiece c s).role with
      | stray => exact absurd hr hrole
      | skipped =>
        rw [hr] at hlongest
        rw [entry, hr]
        exact .skip hlongest ih
      | lexeme kind =>
        rw [hr] at hlongest
        rw [entry, hr]
        exact .entry (.lexeme hlongest) ih
    · rw [hstray] at ih ⊢
      exact .entry (w := [c]) (.stray rfl hnothing) ih
termination_by s.length
decreasing_by all_goals simp only [List.length_drop, List.length_cons]; omega

theorem cuts_scan (source : String) : Cuts 0 source.toList (scan source) :=
  cuts_pieces 0 source.toList

/-! ## What is cut -/

theorem IsEntry.ne_nil (h : IsEntry n w s e) : w ≠ [] := by
  cases h with
  | lexeme h =>
    rintro rfl
    exact not_matches_nil _ h.matches_self
  | stray hw _ => simp [hw]

theorem IsEntry.text_eq (h : IsEntry n w s e) : entryText e = String.ofList w := by
  cases h <;> rfl

theorem IsEntry.span_eq (h : IsEntry n w s e) : entrySpan e = ⟨n, n + bytes w⟩ := by
  cases h <;> rfl

/-- Each entry is the slice of the source at its place. -/
theorem Cuts.exists_slice (h : Cuts n s es) :
    ∀ e ∈ es, ∃ u w v, s = u ++ w ++ v ∧ IsEntry (n + bytes u) w v e := by
  induction h with
  | nil => exact fun e he => absurd he List.not_mem_nil
  | @skip n w s es _ _ ih =>
    intro e he
    obtain ⟨u, x, v, rfl, hentry⟩ := ih e he
    exact ⟨w ++ u, x, v, by simp, by rwa [bytes_append, ← Nat.add_assoc]⟩
  | @entry n w s e es hentry _ ih =>
    intro e' he
    rcases List.mem_cons.mp he with rfl | he
    · exact ⟨[], w, s, by simp, hentry⟩
    · obtain ⟨u, x, v, rfl, hentry'⟩ := ih e' he
      exact ⟨w ++ u, x, v, by simp, by rwa [bytes_append, ← Nat.add_assoc]⟩

/-- The places of the entries stand in order and apart. -/
theorem Cuts.pairwise (h : Cuts n s es) :
    es.Pairwise fun e e' => (entrySpan e).stop ≤ (entrySpan e').start := by
  induction h with
  | nil => exact .nil
  | skip _ _ ih => exact ih
  | @entry n w s e es hentry hcuts ih =>
    refine .cons (fun e' he => ?_) ih
    obtain ⟨u, x, v, -, hentry'⟩ := hcuts.exists_slice e' he
    rw [hentry.span_eq, hentry'.span_eq]
    exact Nat.le_add_right _ _

theorem Cuts.start_le_stop (h : Cuts n s es) (he : e ∈ es) : (entrySpan e).start ≤ (entrySpan e).stop := by
  obtain ⟨u, w, v, -, hentry⟩ := h.exists_slice e he
  rw [hentry.span_eq]
  exact Nat.le_add_right _ _

/-- What is skipped where it is the longest piece reaches to the end of its line, if it is a comment. -/
theorem Skipped.of_isLongest (h : Role.skipped.IsLongest w (w ++ (gap ++ s))) (hgap : Skipped gap s) :
    Skipped (w ++ gap) s := by
  rcases h.matches_self with ⟨-, hblank⟩ | ⟨t, rfl, ht⟩
  · exact .blanks hblank hgap
  · refine .comment ht (fun c hc => ?_) hgap
    by_contra hne
    obtain ⟨r, hr⟩ := List.head?_eq_some_iff.mp hc
    -- With the next character the comment would be longer.
    have hmatches : Role.skipped.Matches ('/' :: '/' :: (t ++ [c])) := by
      refine .inr ⟨t ++ [c], rfl, fun hn => ?_⟩
      rcases List.mem_append.mp hn with hn | hn
      · exact ht hn
      · exact hne (List.mem_singleton.mp hn).symm
    have hle := h.length_le ⟨r, by simp [hr]⟩ hmatches
    simp only [List.length_cons, List.length_append, List.length_nil] at hle
    omega

/-- What is left between the entries is skipped: behind those of the first list, and before those of the second. -/
theorem Cuts.exists_gap (h : Cuts n s es) : ∀ fst snd, es = fst ++ snd → ∃ u gap v, s = u ++ gap ++ v ∧
    n + bytes u = (fst.getLast?.map fun e => (entrySpan e).stop).getD n ∧
    n + bytes (u ++ gap) = (snd.head?.map fun e => (entrySpan e).start).getD (n + bytes s) ∧ Skipped gap v := by
  induction h with
  | nil =>
    intro fst snd hes
    obtain ⟨rfl, rfl⟩ := List.append_eq_nil_iff.mp hes.symm
    exact ⟨[], [], [], rfl, rfl, rfl, .nil⟩
  | @skip n w s es hlongest hcuts ih =>
    intro fst snd hes
    obtain ⟨u, gap, v, rfl, hu, hgap, hskipped⟩ := ih fst snd hes
    rcases List.eq_nil_or_concat fst with rfl | ⟨fst, e, rfl⟩
    · obtain rfl : u = [] := eq_nil_of_bytes (by simpa using hu)
      refine ⟨[], w ++ gap, v, by simp, rfl, ?_, .of_isLongest (by simpa using hlongest) hskipped⟩
      simpa [Nat.add_assoc] using hgap
    · refine ⟨w ++ u, gap, v, by simp, ?_, ?_, hskipped⟩
      · simpa [Nat.add_assoc] using hu
      · simpa [Nat.add_assoc] using hgap
  | @entry n w s e es hentry hcuts ih =>
    intro fst snd hes
    cases fst with
    | nil =>
      obtain rfl : e :: es = snd := hes
      exact ⟨[], [], w ++ s, rfl, rfl, by simp [hentry.span_eq], .nil⟩
    | cons e' fst =>
      obtain ⟨rfl, rfl⟩ := List.cons.inj hes
      obtain ⟨u, gap, v, rfl, hu, hgap, hskipped⟩ := ih fst snd rfl
      refine ⟨w ++ u, gap, v, by simp, ?_, ?_, hskipped⟩
      · rcases List.eq_nil_or_concat fst with rfl | ⟨fst, e', rfl⟩
        · simpa [hentry.span_eq, Nat.add_assoc] using hu
        · rw [List.concat_eq_append] at hu ⊢
          rw [← List.cons_append, List.getLast?_concat]
          simpa [Nat.add_assoc] using hu
      · simpa [Nat.add_assoc] using hgap

/-- The entries of a scan stand in order and apart. Each is the slice of the source at its place: a lexeme is the
longest piece there is at its start, and a failure is about one character, at which no piece starts. What lies before
the first entry, between two of them and behind the last is skipped. -/
theorem scan_partition (source : String) :
    (scan source).Pairwise (fun e e' => (entrySpan e).stop ≤ (entrySpan e').start) ∧
    (∀ e ∈ scan source, ∃ before after : String, source = before ++ entryText e ++ after ∧
      entrySpan e = ⟨before.utf8ByteSize, (before ++ entryText e).utf8ByteSize⟩ ∧
      (entrySpan e).start < (entrySpan e).stop ∧
      (∀ l, e = .ok l → (Role.lexeme l.kind).IsLongest l.text.toList (l.text ++ after).toList) ∧
      ∀ f, e = .error f → ∃ c, f = .unrecognized before.utf8ByteSize (.singleton c) ∧
        NothingMatches (String.singleton c ++ after).toList) ∧
    ∀ fst snd, scan source = fst ++ snd → ∃ before gap after : String, source = before ++ gap ++ after ∧
      before.utf8ByteSize = (fst.getLast?.map fun e => (entrySpan e).stop).getD 0 ∧
      (before ++ gap).utf8ByteSize = (snd.head?.map fun e => (entrySpan e).start).getD source.utf8ByteSize ∧
      Skipped gap.toList after.toList := by
  have hcuts := cuts_scan source
  have hbytes : source.utf8ByteSize = bytes source.toList := by rw [bytes, String.ofList_toList]
  refine ⟨hcuts.pairwise, fun e he => ?_, fun fst snd hes => ?_⟩
  · obtain ⟨u, w, v, hsource, hentry⟩ := hcuts.exists_slice e he
    have hpos := bytes_pos hentry.ne_nil
    rw [Nat.zero_add] at hentry
    refine ⟨.ofList u, .ofList v, ?_, ?_, ?_, fun l hl => ?_, fun f hf => ?_⟩
    · rw [hentry.text_eq, ← String.ofList_append, ← String.ofList_append, ← hsource, String.ofList_toList]
    · rw [hentry.span_eq, hentry.text_eq, ← String.ofList_append]
      exact congrArg (Span.mk (bytes u)) (bytes_append u w).symm
    · rw [hentry.span_eq]
      exact Nat.lt_add_of_pos_right hpos
    · subst hl
      cases hentry with
      | lexeme hlongest => simpa using hlongest
    · subst hf
      cases hentry with
      | @stray c hw hnothing =>
        subst hw
        exact ⟨c, rfl, by simpa using hnothing⟩
  · obtain ⟨u, gap, v, hsource, hu, hgap, hskipped⟩ := hcuts.exists_gap fst snd hes
    refine ⟨.ofList u, .ofList gap, .ofList v, ?_, ?_, ?_, by simpa using hskipped⟩
    · rw [← String.ofList_append, ← String.ofList_append, ← hsource, String.ofList_toList]
    · simpa [bytes] using hu
    · rw [hbytes, ← String.ofList_append]
      simpa [bytes] using hgap

example : scan "1.x//" =
    [.ok ⟨.integer, "1", ⟨0, 1⟩⟩, .error (.unrecognized 1 "."), .ok ⟨.identifier, "x", ⟨2, 3⟩⟩] := by
  decide +kernel

end Scan

end Formula
