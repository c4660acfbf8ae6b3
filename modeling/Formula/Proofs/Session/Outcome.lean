import Formula.Proofs.Bench.Program
import Formula.Session.Basic

/-!
# How a parse comes out

A source may have several defects at once. The first fault of its scan is reported before anything else, then nesting
that is too deep, even behind a token that no program has there, and only then such a token (`parse_decided`). Up to
the check of the nesting nothing but leaves is made.
-/

namespace Formula

/-- What a parse comes to that reads its tokens so, which have these spans. -/
def Grammar.Reading.result (spans : List Span) : Reading → Except Failure NodeId
  | program root => .ok root
  | stuck position expected => .error (.unexpected (Bench.offsetAt spans position) (Class.describe expected))

namespace Session

open Grammar

/-- The parse of the source ends with the failure, and leaves no root. -/
structure FailsWith (s : Session) (source : String) (f : Failure) : Prop where
  result : (s.parse source).1 = .error f
  phase : (s.parse source).2.phase = .failed
  root : (s.parse source).2.root = none

section

variable {s : Session} {source : String} {f : Failure} {b : Bench} {ls : List Lexeme} {ss : List Statement}

/-- The bench for a source is supplied with its scan. -/
theorem supply_attach (s : Session) (source : String) :
    (s.attach (.ofSource source)).2.supply = .ofScan s.options.policy (scan source) := rfl

/-- A parse ends as the grammar does, unless that records no root. -/
theorem parse_eq {outcome : Except Failure Unit}
    (h : (s.attach (.ofSource source)).2.readProgram s.options.maxNesting = (outcome, b)) :
    s.parse source = (s.attach (.ofSource source)).1.conclude b outcome := by
  show (s.attach (.ofSource source)).1.conclude ((s.attach (.ofSource source)).2.readProgram s.options.maxNesting).2
    ((s.attach (.ofSource source)).2.readProgram s.options.maxNesting).1 = _
  rw [h]

theorem failsWith_of_readProgram
    (h : (s.attach (.ofSource source)).2.readProgram s.options.maxNesting = (.error f, b)) :
    s.FailsWith source f ∧ (s.parse source).2.arena = b.arena := by
  constructor
  · constructor <;> rw [parse_eq h] <;> rfl
  · rw [parse_eq h]
    rfl

theorem parse_of_readProgram {root : NodeId}
    (h : (s.attach (.ofSource source)).2.readProgram s.options.maxNesting = (.ok (), b)) (hroot : b.root = some root) :
    (s.parse source).1 = .ok root ∧ (s.parse source).2.arena = b.arena := by
  rw [parse_eq h]
  simp [conclude, Except.bind, hroot, detach, finish]

/-! ## One defect at a time -/

/-- The first fault of the scan, with the leaves before it. -/
theorem failsWith_fault {e : Except Failure Lexeme} {es : List (Except Failure Lexeme)}
    (h : scan source = ls.map .ok ++ e :: es) (hls : Convert s.options.policy ls)
    (hf : fault? s.options.policy e = some f) :
    s.FailsWith source f ∧ (s.parse source).2.arena = s.arena.append (leaves s.options.policy ls) := by
  have hsupply : (s.attach (.ofSource source)).2.supply = .ofScan s.options.policy (ls.map .ok ++ e :: es) := by
    rw [supply_attach, h]
  obtain ⟨b, hdrain, harena, -⟩ := Bench.drain_scan_of_fault hls hf hsupply
  have hread : (s.attach (.ofSource source)).2.readProgram s.options.maxNesting = (.error f, b) := by
    rw [Bench.readProgram, hdrain]
  obtain ⟨hfails, ha⟩ := failsWith_of_readProgram hread
  exact ⟨hfails, ha.trans harena⟩

/-- What a fault is: a stray character, or a numeral that a strict session does not convert. -/
theorem fault_cases {e : Except Failure Lexeme} {es : List (Except Failure Lexeme)}
    (h : scan source = ls.map .ok ++ e :: es) (hf : fault? s.options.policy e = some f) :
    (∃ offset text, e = .error f ∧ f = .unrecognized offset text) ∨
      s.options.policy = .strict ∧ ∃ l, e = .ok l ∧ f = .malformedNumber l.span.start l.text := by
  cases e with
  | error f' =>
    obtain rfl : f' = f := Option.some.inj hf
    have hmem : .error f' ∈ scan source := by
      rw [h]
      simp
    obtain ⟨offset, text, hoffset⟩ := exists_unrecognized_of_mem_scan hmem
    exact .inl ⟨offset, text, rfl, hoffset⟩
  | ok l =>
    obtain ⟨hrefused, hmalformed⟩ := fault?_ok_eq_some.mp hf
    exact .inr ⟨eq_strict_of_leaf_eq_refused hrefused, l, rfl, hmalformed.symm⟩

/-- What is taken of a scan without a fault. -/
theorem drain_attach (h : scan source = ls.map .ok) (hls : Convert s.options.policy ls) :
    ∃ b : Bench, (s.attach (.ofSource source)).2.drain #[] = (.ok (mint s.options.policy s.arena ls), b) ∧
      b.arena = s.arena.append (leaves s.options.policy ls) := by
  have hsupply : (s.attach (.ofSource source)).2.supply = .ofScan s.options.policy (ls.map .ok) := by
    rw [supply_attach, h]
  obtain ⟨b, hdrain, harena, -⟩ := Bench.drain_scan hls hsupply
  exact ⟨b, hdrain, harena⟩

/-- Nesting that is too deep, with all leaves. -/
theorem failsWith_tooDeep (h : scan source = ls.map .ok) (hls : Convert s.options.policy ls) {span : Span}
    (hn : Nesting.start.firstTooDeep s.options.maxNesting (ls.map fun l => (l.kind, l.span)) = some span) :
    s.FailsWith source (.tooDeep span.start s.options.maxNesting) ∧
      (s.parse source).2.arena = s.arena.append (leaves s.options.policy ls) := by
  obtain ⟨b, hdrain, harena⟩ := drain_attach h hls
  rw [← map_kind_mint s.options.policy s.arena] at hn
  obtain ⟨hfails, ha⟩ := failsWith_of_readProgram (Bench.readProgram_of_tooDeep hdrain hn)
  exact ⟨hfails, ha.trans harena⟩

section

variable (h : scan source = ls.map .ok) (hls : Convert s.options.policy ls)
  (hn : Nesting.start.firstTooDeep s.options.maxNesting (ls.map fun l => (l.kind, l.span)) = none)
include h hls hn

/-- Without a defect of the scan or of the nesting a parse comes to what the grammar reads. -/
theorem parse_of_scan :
    let read := read ((mint s.options.policy s.arena ls).map Prod.fst).toArray
      (s.arena.append (leaves s.options.policy ls))
    (s.parse source).1 = read.1.result (ls.map Lexeme.span) ∧ (s.parse source).2.arena = read.2 := by
  obtain ⟨b, hdrain, harena⟩ := drain_attach h hls
  rw [← map_kind_mint s.options.policy s.arena] at hn
  rw [← map_snd_mint s.options.policy s.arena, ← harena]
  rcases hread : read ((mint s.options.policy s.arena ls).map Prod.fst).toArray b.arena with
    ⟨root | ⟨position, expected⟩, a⟩
  · exact parse_of_readProgram (Bench.readProgram_of_program hdrain hn hread) rfl
  · obtain ⟨hfails, ha⟩ := failsWith_of_readProgram (Bench.readProgram_of_stuck hdrain hn hread)
    exact ⟨hfails.result, ha⟩

/-- Tokens that are no program, with all that the grammar has made of them. -/
theorem failsWith_unexpected (hss : ∀ ss, ¬ DerivesProgram ((mint s.options.policy s.arena ls).map Prod.fst) ss) :
    ∃ offset expected, s.FailsWith source (.unexpected offset expected) ∧ (s.parse source).2.arena =
      (read ((mint s.options.policy s.arena ls).map Prod.fst).toArray
        (s.arena.append (leaves s.options.policy ls))).2 := by
  obtain ⟨b, hdrain, harena⟩ := drain_attach h hls
  rw [← map_kind_mint s.options.policy s.arena] at hn
  obtain ⟨offset, expected, hread⟩ := Bench.readProgram_of_not_derives hdrain hn hss
  obtain ⟨hfails, ha⟩ := failsWith_of_readProgram hread
  rw [harena] at ha
  exact ⟨offset, expected, hfails, ha⟩

/-- A program; its root is recorded, and its nodes are made behind the leaves. -/
theorem parse_of_derives (hss : DerivesProgram ((mint s.options.policy s.arena ls).map Prod.fst) ss) :
    (s.parse source).1 = .ok (buildProgram ss (s.arena.append (leaves s.options.policy ls))).1 ∧
      (s.parse source).2.arena = (buildProgram ss (s.arena.append (leaves s.options.policy ls))).2 := by
  obtain ⟨b, hdrain, harena⟩ := drain_attach h hls
  rw [← map_kind_mint s.options.policy s.arena] at hn
  rw [← harena]
  exact parse_of_readProgram (Bench.readProgram_of_derives hdrain hn hss) rfl

end

end

/-! ## The order of defects -/

/-- What a parse comes to, by the first defect of the source. -/
theorem result_cases (s : Session) (source : String) :
    (∃ ls e es f, scan source = ls.map .ok ++ e :: es ∧ Convert s.options.policy ls ∧
      fault? s.options.policy e = some f ∧ (s.parse source).1 = .error f) ∨
    (∃ ls span, scan source = ls.map .ok ∧ Convert s.options.policy ls ∧
      Nesting.start.firstTooDeep s.options.maxNesting (ls.map fun l => (l.kind, l.span)) = some span ∧
      (s.parse source).1 = .error (.tooDeep span.start s.options.maxNesting)) ∨
    ∃ ls, scan source = ls.map .ok ∧ Convert s.options.policy ls ∧
      Nesting.start.firstTooDeep s.options.maxNesting (ls.map fun l => (l.kind, l.span)) = none ∧
      ∃ reading : Reading, (s.parse source).1 = reading.result (ls.map Lexeme.span) := by
  rcases scan_cases s.options.policy (scan source) with ⟨ls, e, es, f, h, hls, hf⟩ | ⟨ls, h, hls⟩
  · exact .inl ⟨ls, e, es, f, h, hls, hf, (failsWith_fault h hls hf).1.result⟩
  · cases hn : Nesting.start.firstTooDeep s.options.maxNesting (ls.map fun l => (l.kind, l.span)) with
    | some span => exact .inr (.inl ⟨ls, span, h, hls, hn, (failsWith_tooDeep h hls hn).1.result⟩)
    | none => exact .inr (.inr ⟨ls, h, hls, hn, _, (parse_of_scan h hls hn).1⟩)

/-- A parse that fails with nothing but an unexpected token has got past the scan and the nesting. -/
theorem exists_scan_of_parse {s : Session} {source : String}
    (h : ∀ f, (s.parse source).1 = .error f → ∃ offset expected, f = .unexpected offset expected) :
    ∃ ls, scan source = ls.map .ok ∧ Convert s.options.policy ls ∧
      Nesting.start.firstTooDeep s.options.maxNesting (ls.map fun l => (l.kind, l.span)) = none := by
  rcases scan_cases s.options.policy (scan source) with ⟨ls, e, es, f, hscan, hls, hf⟩ | ⟨ls, hscan, hls⟩
  · obtain ⟨_, _, hunexpected⟩ := h f (failsWith_fault hscan hls hf).1.result
    rcases fault_cases hscan hf with ⟨_, _, -, rfl⟩ | ⟨-, _, -, rfl⟩ <;> cases hunexpected
  · cases hn : Nesting.start.firstTooDeep s.options.maxNesting (ls.map fun l => (l.kind, l.span)) with
    | none => exact ⟨ls, hscan, hls, hn⟩
    | some span =>
      obtain ⟨_, _, hunexpected⟩ := h _ (failsWith_tooDeep hscan hls hn).1.result
      cases hunexpected

/-- A scan has a first fault or none. A parse fails with the first fault, if there is one; then, if the tokens nest too
deep, with the first that does; then, if they are no program, with one that is not expected. Otherwise it gives a root.
It never fails in any other way. -/
theorem parse_decided (s : Session) (source : String) :
    ((∃ ls e es f, scan source = ls.map .ok ++ e :: es ∧ Convert s.options.policy ls ∧
        fault? s.options.policy e = some f) ∨
      ∃ ls, scan source = ls.map .ok ∧ Convert s.options.policy ls) ∧
    (∀ ls e es f, scan source = ls.map .ok ++ e :: es → Convert s.options.policy ls →
      fault? s.options.policy e = some f →
      s.FailsWith source f ∧ (s.parse source).2.arena = s.arena.append (leaves s.options.policy ls) ∧
      ((∃ offset text, e = .error f ∧ f = .unrecognized offset text) ∨
        s.options.policy = .strict ∧ ∃ l, e = .ok l ∧ f = .malformedNumber l.span.start l.text)) ∧
    (∀ ls, scan source = ls.map .ok → Convert s.options.policy ls →
      (∀ span, Nesting.start.firstTooDeep s.options.maxNesting (ls.map fun l => (l.kind, l.span)) = some span →
        s.FailsWith source (.tooDeep span.start s.options.maxNesting) ∧
        (s.parse source).2.arena = s.arena.append (leaves s.options.policy ls)) ∧
      (Nesting.start.firstTooDeep s.options.maxNesting (ls.map fun l => (l.kind, l.span)) = none →
        ((∀ ss, ¬ DerivesProgram ((mint s.options.policy s.arena ls).map Prod.fst) ss) →
          ∃ offset expected, s.FailsWith source (.unexpected offset expected)) ∧
        ∀ ss, DerivesProgram ((mint s.options.policy s.arena ls).map Prod.fst) ss →
          ∃ root, (s.parse source).1 = .ok root)) ∧
    (s.parse source).1 ≠ .error .missingRoot ∧ ∀ cause, (s.parse source).1 ≠ .error (.unreadable cause) := by
  have hforms : (s.parse source).1 ≠ .error .missingRoot ∧
      ∀ cause, (s.parse source).1 ≠ .error (.unreadable cause) := by
    rcases scan_cases s.options.policy (scan source) with ⟨ls, e, es, f, h, hls, hf⟩ | ⟨ls, h, hls⟩
    · have hresult := (failsWith_fault h hls hf).1.result
      rcases fault_cases h hf with ⟨offset, text, -, rfl⟩ | ⟨-, l, -, rfl⟩ <;> simp [hresult]
    · cases hn : Nesting.start.firstTooDeep s.options.maxNesting (ls.map fun l => (l.kind, l.span)) with
      | some span => simp [(failsWith_tooDeep h hls hn).1.result]
      | none =>
        by_cases hss : ∃ ss, DerivesProgram ((mint s.options.policy s.arena ls).map Prod.fst) ss
        · obtain ⟨ss, hss⟩ := hss
          simp [(parse_of_derives h hls hn hss).1]
        · obtain ⟨offset, expected, hfails, -⟩ := failsWith_unexpected h hls hn (not_exists.mp hss)
          simp [hfails.result]
  refine ⟨scan_cases _ _, fun ls e es f h hls hf => ?_,
    fun ls h hls => ⟨fun span => failsWith_tooDeep h hls, fun hn => ?_⟩, hforms⟩
  · obtain ⟨hfails, harena⟩ := failsWith_fault h hls hf
    exact ⟨hfails, harena, fault_cases h hf⟩
  · refine ⟨fun hss => ?_, fun ss hss => ⟨_, (parse_of_derives h hls hn hss).1⟩⟩
    obtain ⟨offset, expected, hfails, -⟩ := failsWith_unexpected h hls hn hss
    exact ⟨offset, expected, hfails⟩

end Session

end Formula
