import Formula.Proofs.Bench.Program
import Formula.Proofs.Grammar.Depth
import Formula.Proofs.Grammar.Expectation
import Formula.Proofs.Grammar.Lawful
import Formula.Proofs.Grammar.Naming
import Mathlib.Order.Bounds.Basic
import Mathlib.Order.Lattice.Nat

/-!
# Which token is to blame

Of tokens that are no program the longest viable prefix is as far as the grammar gets. Every mark is for a class that is
expected where it is left, so none lies behind that prefix; and right behind it every class that is expected is marked,
since the token that stands there is none of them. So the first run locates the end of the prefix, and the second one
lists all classes that are expected there (`read_of_isGreatest`). What a bench fails with names both
(`readProgram_blames`).
-/

namespace Formula

namespace Grammar

variable {tokens : Array Token} {p : Nat} {ss : List Statement} {w : List Token}

/-- The positions up to which the tokens are a viable prefix. -/
def viablePrefixes (w : List Token) : Set Nat :=
  {k | k ≤ w.length ∧ Viable (w.take k)}

theorem viable_nil : Viable [] := by
  obtain ⟨e, he⟩ := phrase_name .expr
  exact ⟨_, _, .plain (.single (.expression he))⟩

theorem exists_isGreatest_viablePrefixes (w : List Token) : ∃ p, IsGreatest (viablePrefixes w) p := by
  have hbounded : BddAbove (viablePrefixes w) := ⟨w.length, fun k hk => hk.1⟩
  exact ⟨_, Nat.sSup_mem ⟨0, Nat.zero_le _, viable_nil⟩ hbounded, fun k hk => le_csSup hbounded hk⟩

/-- Every program goes on: with a semicolon, or behind one with a further statement. -/
theorem DerivesProgram.exists_longer (h : DerivesProgram w ss) : ∃ t v, IsProgram (w ++ t :: v) := by
  cases h with
  | plain hss => exact ⟨Class.semicolon.sample, [], _, .closed hss rfl⟩
  | @closed w t ss hss hk =>
    have hmore := (frames_more ⟨ss, hss⟩ hk).apply (frames_expression.apply (phrase_name .expr))
    exact ⟨Class.identifier.sample, [], by simpa using frames_plain.apply hmore⟩

theorem Viable.exists_longer (h : Viable w) : ∃ t v, IsProgram (w ++ t :: v) := by
  obtain ⟨v, ss, hss⟩ := h
  cases v with
  | nil => exact DerivesProgram.exists_longer (by simpa using hss)
  | cons t v => exact ⟨t, v, ss, hss⟩

theorem reads_take (h : p ≤ tokens.size) : Reads tokens 0 (tokens.toList.take p) p := by
  refine ⟨?_, by simp⟩
  rw [List.length_take, Array.length_toList, Nat.zero_add, Nat.min_eq_left h]

section

variable (hp : IsGreatest (viablePrefixes tokens.toList) p)
include hp

/-- Nothing is expected behind the longest viable prefix. -/
theorem Expects.le {c : Class} {i : Nat} (h : Expects tokens c i) : i ≤ p := by
  obtain ⟨hi, t, -, hv⟩ := h
  exact hp.2 ⟨by simpa using hi, hv.of_append⟩

/-- No program goes on with the token behind the longest viable prefix. -/
theorem stuck_of_isGreatest : Stuck tokens IsProgram (tokens.toList.take p) p := by
  intro t v ht hprogram
  have htake : tokens.toList.take (p + 1) = tokens.toList.take p ++ [t] := (reads_token ht).take_eq
  have hsucc : p + 1 ∈ viablePrefixes tokens.toList := by
    refine ⟨by simpa using Nat.succ_le_of_lt (lt_size_of_getElem? ht), v, ?_⟩
    rwa [htake, ← List.append_cons]
  exact Nat.not_succ_le_self p (hp.2 hsucc)

theorem le_size_of_isGreatest : p ≤ tokens.size := by
  simpa using hp.1.1

/-- Every class that is expected behind the longest viable prefix is marked there. -/
theorem marks_of_expects {c : Class} (h : Expects tokens c p) :
    Marks tokens c p (program (expression tokens.size .sum)) 0 := by
  obtain ⟨hsize, t, rfl, v, ss, hss⟩ := h
  refine hss.marks (u := tokens.toList.take p) (v := v) (by simp) ?_ (reads_take hsize) (stuck_of_isGreatest hp)
  simp [hsize]

variable (h : ∀ ss, ¬ DerivesProgram tokens.toList ss)
include h

omit hp in
/-- Tokens that are no program make a run fail. -/
theorem run_eq_failed (a : Arena) (probe : Probe) : ∃ r, run tokens a probe = (.failed, r) := by
  have hrec := recognizes_program (recognizes_expression tokens tokens.size).1 ⟨a, probe⟩
  rcases hrun : run tokens a probe with ⟨root | _ | _, r⟩
  · obtain ⟨ss, hss⟩ := (meets_of_matched hrun).mp hrec
    exact absurd hss (h ss)
  · exact ⟨r, rfl⟩
  · exact absurd (congrArg Prod.fst hrun) (run_ne_exhausted tokens a probe)

/-- A run leaves a probe with what lawful marks keep, and with all marks behind the longest viable prefix. -/
theorem probe_run (P : Probe → Prop) (hP : ∀ c i probe, Expects tokens c i → P probe → P (probe.mark c i))
    (a : Arena) {probe : Probe} (hprobe : P probe) :
    P (run tokens a probe).2.probe ∧ ∀ c, Expects tokens c p → (run tokens a probe).2.probe.Marked c p := by
  obtain ⟨r, hr⟩ := run_eq_failed h a probe
  have hrec := (recognizes_expression tokens tokens.size).1
  have hlawful := lawful_program hP hrec (lawful_expression hP tokens.size).1 ⟨a, probe⟩ hprobe
  rw [hr]
  refine ⟨(meets_of_failed hr).mp hlawful, fun c hc => ?_⟩
  exact (meets_of_failed hr).mp (marks_of_expects hp hc ⟨a, probe⟩)

/-- The first run locates the end of the longest viable prefix. -/
theorem probe_run_locate (a : Arena) : (run tokens a (.locate 0)).2.probe = .locate p := by
  obtain ⟨t, v, ss, hss⟩ := hp.1.2.exists_longer
  have hexpects : Expects tokens (Class.ofKind t.kind) p :=
    ⟨le_size_of_isGreatest hp, t, rfl, v, ss, by rwa [← List.append_cons]⟩
  have hkeep : ∀ c i (probe : Probe), Expects tokens c i → (∃ f, probe = .locate f ∧ f ≤ p) →
      ∃ f, probe.mark c i = .locate f ∧ f ≤ p := by
    rintro c i - hc ⟨f, rfl, hle⟩
    exact ⟨max f i, rfl, Nat.max_le.mpr ⟨hle, hc.le hp⟩⟩
  obtain ⟨⟨f, hf, hle⟩, hmarks⟩ := probe_run hp h (fun probe => ∃ f, probe = .locate f ∧ f ≤ p) hkeep a
    ⟨0, rfl, Nat.zero_le p⟩
  have hge := hmarks _ hexpects
  rw [hf] at hge ⊢
  rw [Nat.le_antisymm hle hge]

/-- The second run lists the classes that are expected there. -/
theorem probe_run_explain (a : Arena) : ∃ expected, (run tokens a (.explain p [])).2.probe = .explain p expected ∧
    ∀ c, c ∈ expected ↔ Expects tokens c p := by
  have hkeep : ∀ c i (probe : Probe), Expects tokens c i →
      (∃ expected, probe = .explain p expected ∧ ∀ c ∈ expected, Expects tokens c p) →
      ∃ expected, probe.mark c i = .explain p expected ∧ ∀ c ∈ expected, Expects tokens c p := by
    rintro c i - hc ⟨expected, rfl, hsound⟩
    refine ⟨_, rfl, fun c' hc' => ?_⟩
    split at hc'
    · rename_i hi
      obtain rfl := hi.1
      rcases List.mem_cons.mp hc' with rfl | hc'
      · exact hc
      · exact hsound c' hc'
    · exact hsound c' hc'
  obtain ⟨⟨expected, hprobe, hsound⟩, hmarks⟩ := probe_run hp h
    (fun probe => ∃ expected, probe = .explain p expected ∧ ∀ c ∈ expected, Expects tokens c p) hkeep a
    ⟨[], rfl, List.forall_mem_nil _⟩
  refine ⟨expected, hprobe, fun c => ⟨hsound c, fun hc => ?_⟩⟩
  have hmarked := hmarks c hc
  rw [hprobe] at hmarked
  exact hmarked rfl

/-- The grammar is stuck behind the longest viable prefix, with the classes that go on with it. -/
theorem read_of_isGreatest (a : Arena) : ∃ expected b,
    read tokens a = (.stuck p expected, b) ∧ ∀ c, c ∈ expected ↔ Expects tokens c p := by
  obtain ⟨r, hr⟩ := run_eq_failed h a (.locate 0)
  have hposition : r.probe = .locate p := by
    have := probe_run_locate hp h a
    rwa [hr] at this
  obtain ⟨expected, hprobe, hiff⟩ := probe_run_explain hp h r.arena
  refine ⟨expected, (run tokens r.arena (.explain p [])).2.arena, ?_, hiff⟩
  rw [read, hr]
  simp only [hposition, Probe.position, hprobe, Probe.expected]

end

end Grammar

namespace Bench

open Grammar

variable {b b' : Bench} {limit p : Nat} {l : List (Token × Span)}

theorem offsetAt_of_lt (hp : p < l.length) : offsetAt (l.map Prod.snd) p = l[p].2.start := by
  rw [offsetAt, List.getElem?_map, List.getElem?_eq_getElem hp]
  rfl

theorem offsetAt_length (l : List (Token × Span)) :
    offsetAt (l.map Prod.snd) l.length = l.getLast?.elim 0 fun (_, span) => span.stop := by
  rw [offsetAt, List.getElem?_eq_none (by simp), List.getLast?_map]
  cases l.getLast? <;> rfl

/-- Tokens that nest no deeper than the limit and are no program are a failure. It is placed at the token behind the
longest viable prefix, or at the end of the last token if the prefix is all of them, and its text names the classes that
go on with the prefix, each once and in the order of their names. There is always one. -/
theorem readProgram_blames (h : b.supply.entries = l.map fun (t, span) => .token t span)
    (hn : Nesting.start.firstTooDeep limit (l.map fun (t, span) => (t.kind, span)) = none)
    (hss : ∀ ss, ¬ DerivesProgram (l.map Prod.fst) ss) :
    ∃ p offset text, ∃ expected : List Class,
      IsGreatest {k | k ≤ l.length ∧ Viable ((l.map Prod.fst).take k)} p ∧
      (b.readProgram limit).1 = .error (.unexpected offset text) ∧
      (∀ hp : p < l.length, offset = l[p].2.start) ∧
      (p = l.length → offset = l.getLast?.elim 0 fun (_, span) => span.stop) ∧
      (∀ c, c ∈ expected ↔ ∃ t, Class.ofKind t.kind = c ∧ Viable ((l.map Prod.fst).take p ++ [t])) ∧
      (expected.map Class.name).Pairwise (· < ·) ∧ expected ≠ [] ∧
      (∀ c, expected = [c] → text = c.name) ∧
      (2 ≤ expected.length → text = "one of " ++ ", ".intercalate (expected.map Class.name)) := by
  obtain ⟨b', hdrain, -⟩ := drain_tokens #[] l h
  rw [List.nil_append] at hdrain
  obtain ⟨p, hp⟩ := exists_isGreatest_viablePrefixes (l.map Prod.fst).toArray.toList
  obtain ⟨expected, a, hread, hiff⟩ := read_of_isGreatest hp hss b'.arena
  have hlisted : ∀ c, c ∈ Class.listed expected ↔
      ∃ t, Class.ofKind t.kind = c ∧ Viable ((l.map Prod.fst).take p ++ [t]) := fun c =>
    Class.mem_listed.trans ((hiff c).trans (and_iff_right (by simpa using hp.1.1)))
  have hne : Class.listed expected ≠ [] := by
    obtain ⟨t, v, hprogram⟩ := hp.1.2.exists_longer
    refine List.ne_nil_of_mem ((hlisted (Class.ofKind t.kind)).mpr ⟨t, rfl, v, ?_⟩)
    rwa [← List.append_cons]
  refine ⟨p, offsetAt (l.map Prod.snd) p, Class.describe expected, Class.listed expected, ?_, ?_, offsetAt_of_lt, ?_,
    hlisted, Class.pairwise_listed expected, hne, fun c => Class.describe_of_singleton, Class.describe_of_two_le⟩
  · simpa [viablePrefixes] using hp
  · rw [readProgram_of_stuck hdrain hn hread]
  · rintro rfl
    exact offsetAt_length l

/-- A bench with the tokens of `(a b)`. -/
def benchOfNeighbours : Bench where
  arena := ⟨0, #[.identifier "a", .identifier "b"]⟩
  root := none
  supply := ⟨.strict, neighbours.map fun (t, span) => .token t span, .origin⟩
  journal := #[]
where
  neighbours : List (Token × Span) :=
    [(⟨.leftParen, none⟩, ⟨0, 1⟩), (⟨.identifier, some ⟨0, 0⟩⟩, ⟨1, 2⟩), (⟨.identifier, some ⟨0, 1⟩⟩, ⟨3, 4⟩),
      (⟨.rightParen, none⟩, ⟨4, 5⟩)]

/-- The second name is to blame, and what may follow the first one is expected. -/
theorem readProgram_blames_neighbours :
    (benchOfNeighbours.readProgram 1).1 = .error (.unexpected 3 "one of ')', '*', '+', '-', '/'") ∧
      ∀ c, c ∈ [Class.rightParen, .star, .plus, .minus, .slash] ↔ ∃ t, Class.ofKind t.kind = c ∧
        Viable [⟨.leftParen, none⟩, ⟨.identifier, some ⟨0, 0⟩⟩, t] := by
  have hn : Nesting.start.firstTooDeep 1 (benchOfNeighbours.neighbours.map fun (t, span) => (t.kind, span)) = none := by
    decide
  have hread : (benchOfNeighbours.readProgram 1).1 = .error (.unexpected 3 "one of ')', '*', '+', '-', '/'") := by
    decide +kernel
  have hss : ∀ ss, ¬ DerivesProgram (benchOfNeighbours.neighbours.map Prod.fst) ss := by
    intro ss hss
    obtain ⟨b', hdrain, -⟩ := drain_tokens (b := benchOfNeighbours) #[] benchOfNeighbours.neighbours rfl
    rw [readProgram_of_derives hdrain hn hss] at hread
    cases hread
  obtain ⟨p, offset, text, expected, hp, hblames, hlt, hlength, hiff, -, hne, hone, hmore⟩ :=
    readProgram_blames (b := benchOfNeighbours) (l := benchOfNeighbours.neighbours) rfl hn hss
  obtain ⟨rfl, rfl⟩ : 3 = offset ∧ "one of ')', '*', '+', '-', '/'" = text := by
    rw [hread, Except.error.injEq, Failure.unexpected.injEq] at hblames
    exact hblames
  have hle : p ≤ 4 := hp.1.1
  obtain rfl : p = 2 := by
    obtain rfl | rfl | rfl | rfl | rfl : p = 0 ∨ p = 1 ∨ p = 2 ∨ p = 3 ∨ p = 4 := by omega
    · exact absurd (hlt (by decide)) (by decide)
    · exact absurd (hlt (by decide)) (by decide)
    · rfl
    · exact absurd (hlt (by decide)) (by decide)
    · exact absurd (hlength rfl) (by decide)
  -- the text is one of several classes, and it is these that it names
  have htwo : 2 ≤ expected.length := by
    match expected with
    | [] => exact absurd rfl hne
    | [c] =>
      have hc := hone c rfl
      cases c <;> exact absurd hc (by decide)
    | c :: d :: cs => simp
  have hnames : "one of ')', '*', '+', '-', '/'" =
      "one of " ++ ", ".intercalate ([Class.rightParen, .star, .plus, .minus, .slash].map Class.name) := by decide
  have hcs : [Class.rightParen, .star, .plus, .minus, .slash] = expected := by
    have hchars := congrArg String.toList (hnames.symm.trans (hmore htwo))
    refine Class.eq_of_intercalate_name (List.cons_ne_nil _ _) hne (String.toList_inj.mp ?_)
    simpa only [String.toList_append, List.append_cancel_left_eq] using hchars
  exact ⟨hread, hcs ▸ hiff⟩

end Bench

end Formula
