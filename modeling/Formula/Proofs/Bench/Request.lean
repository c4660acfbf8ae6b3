import Formula.Proofs.Bench.Drain

/-!
# What requests come to

A request of an engine is answered by the supply, and a program is read by the grammar, unless the lexer panics where
its tokens end (`request_cases`, `requestProgram_cases`). In either case the bench may go on with what its lexer has in
store behind that (`resumes_request`, `resumes_requestProgram`).
-/

namespace Formula.Bench

/-- The bench may go on with what comes behind the end of its supply. -/
inductive Resumes (b : Bench) : Bench → Prop
  | refl : Resumes b b
  | refill {stop : Break} {scan : List (Except Failure Lexeme)} {later : List (Break × List (Except Failure Lexeme))} :
      b.later = (stop, scan) :: later → Resumes b (b.refill scan later)

variable {b b' : Bench}

theorem Resumes.arena_eq (h : b.Resumes b') : b'.arena = b.arena := by
  cases h <;> rfl

theorem Resumes.root_eq (h : b.Resumes b') : b'.root = b.root := by
  cases h <;> rfl

@[simp] theorem later_next (b : Bench) : b.next.2.later = b.later := rfl

theorem later_drain (taken : Array (Token × Span)) (b : Bench) : (b.drain taken).2.later = b.later := by
  fun_induction drain taken b with
  | case1 taken b t b' h ih => rw [ih, ← later_next b, h]
  | case2 taken b b' h => rw [← later_next b, h]
  | case3 taken b f b' h => rw [← later_next b, h]

theorem later_readProgram (b : Bench) (limit : Nat) : (b.readProgram limit).2.later = b.later := by
  rw [readProgram, ← later_drain #[] b]
  rcases b.drain #[] with ⟨f | taken, b'⟩
  · rfl
  · simp only
    split
    · rfl
    · rcases Grammar.read (taken.map Prod.fst).toArray b'.arena with ⟨root | ⟨position, expected⟩, a⟩ <;> rfl

/-- A request is answered by the supply, unless the supply is at its end and its lexer goes on behind it. -/
theorem request_cases (b : Bench) :
    (b.request = (.returned b.next.1, b.next.2) ∧ (b.supply.entries = [] → b.later = [])) ∨
    (∃ scan later, b.request = (.returned (.ok none), b.refill scan later) ∧ b.supply.entries = [] ∧
      b.later = (.pause, scan) :: later) ∨
    ∃ reason scan later, b.request = (.aborted reason, b.refill scan later) ∧ b.supply.entries = [] ∧
      b.later = (.panic reason, scan) :: later := by
  rw [request]
  split
  · rename_i scan later hentries hlater
    exact .inr (.inl ⟨scan, later, rfl, hentries, hlater⟩)
  · rename_i reason scan later hentries hlater
    exact .inr (.inr ⟨reason, scan, later, rfl, hentries, hlater⟩)
  · rename_i hpause hpanic
    refine .inl ⟨rfl, fun hentries => ?_⟩
    match hlater : b.later with
    | [] => rfl
    | (.pause, scan) :: later => exact (hpause scan later hentries hlater).elim
    | (.panic reason, scan) :: later => exact (hpanic reason scan later hentries hlater).elim

theorem resumes_request (b : Bench) : b.next.2.Resumes b.request.2 := by
  have hend (h : b.supply.entries = []) : b.next.2 = b := by simp [next, Supply.next, h]
  rcases b.request_cases with
    ⟨hrequest, -⟩ | ⟨scan, later, hrequest, hentries, hlater⟩ | ⟨reason, scan, later, hrequest, hentries, hlater⟩
  · rw [hrequest]
    exact .refl
  · rw [hrequest, hend hentries]
    exact .refill hlater
  · rw [hrequest, hend hentries]
    exact .refill hlater

/-- A program is read, unless the lexer panics behind the last token; then nothing but the tokens has been taken. -/
theorem requestProgram_cases (b : Bench) (limit : Nat) :
    (b.requestProgram limit = (.returned (b.readProgram limit).1, (b.readProgram limit).2) ∧
      (b.later = [] ∨ ∃ f, (b.drain #[]).1 = .error f)) ∨
    (∃ taken scan later, b.requestProgram limit =
        (.returned (b.readProgram limit).1, (b.readProgram limit).2.refill scan later) ∧
      (b.drain #[]).1 = .ok taken ∧ b.later = (.pause, scan) :: later) ∨
    ∃ taken reason scan later, b.requestProgram limit = (.aborted reason, (b.drain #[]).2.refill scan later) ∧
      (b.drain #[]).1 = .ok taken ∧ b.later = (.panic reason, scan) :: later := by
  rw [requestProgram]
  cases b.later with
  | nil => exact .inl ⟨rfl, .inl rfl⟩
  | cons first later =>
    obtain ⟨stop, scan⟩ := first
    rcases b.drain #[] with ⟨f | taken, b'⟩
    · exact .inl ⟨rfl, .inr ⟨f, rfl⟩⟩
    · cases stop with
      | pause => exact .inr (.inl ⟨taken, scan, later, rfl, rfl, rfl⟩)
      | panic reason => exact .inr (.inr ⟨taken, reason, scan, later, rfl, rfl, rfl⟩)

theorem resumes_requestProgram (b : Bench) (limit : Nat) :
    ((b.requestProgram limit).1 = .returned (b.readProgram limit).1 ∧
      (b.readProgram limit).2.Resumes (b.requestProgram limit).2) ∨
    ((∃ reason, (b.requestProgram limit).1 = .aborted reason) ∧
      (b.drain #[]).2.Resumes (b.requestProgram limit).2) := by
  rcases b.requestProgram_cases limit with
    ⟨hrequest, -⟩ | ⟨taken, scan, later, hrequest, -, hlater⟩ | ⟨taken, reason, scan, later, hrequest, -, hlater⟩ <;>
    rw [hrequest]
  · exact .inl ⟨rfl, .refl⟩
  · exact .inl ⟨rfl, .refill ((b.later_readProgram limit).trans hlater)⟩
  · exact .inr ⟨⟨reason, rfl⟩, .refill ((later_drain #[] b).trans hlater)⟩

end Formula.Bench
