import Formula.Proofs.Bench.Program
import Formula.Proofs.Engine.Making
import Formula.Proofs.Grammar.Recording

/-!
# When a bench records a root

`Course` tells what reading a program comes to, with a grammar that records the root by itself while it runs, and runs
once more where it fails. Reading always takes such a course (`course_readProgram`). The root of a program that is read
is recorded, and on every other course the root stays what it was; the nodes that are there stay on all of them
(`readProgram_records`).
-/

namespace Formula.Bench

open Grammar

/-- Requests are answered with the tokens one after the other, each with the span of the supply after it. -/
inductive Pulls : Bench → List (Token × Span) → Bench → Prop
  | nil {b : Bench} : Pulls b [] b
  | cons {b b₁ b₂ : Bench} {t : Token} {l : List (Token × Span)} : b.next = (.ok (some t), b₁) → Pulls b₁ l b₂ →
      Pulls b ((t, b₁.supply.span) :: l) b₂

/-- How reading a program may end. -/
inductive Course (b : Bench) (limit : Nat) : Except Failure Unit × Bench → Prop
  /-- A request fails, and no other is made. -/
  | fault {l : List (Token × Span)} {b₁ b₂ : Bench} {f : Failure} : b.Pulls l b₁ → b₁.next = (.error f, b₂) →
      Course b limit (.error f, b₂)
  /-- The tokens nest too deep, and the grammar is not run. -/
  | tooDeep {l : List (Token × Span)} {b₁ b₂ : Bench} {span : Span} : b.Pulls l b₁ → b₁.next = (.ok none, b₂) →
      Nesting.start.firstTooDeep limit (l.map fun (t, span) => (t.kind, span)) = some span →
      Course b limit (.error (.tooDeep span.start limit), b₂)
  /-- The grammar has read a program. -/
  | program {l : List (Token × Span)} {b₁ b₂ : Bench} {root : NodeId} {a : Arena} {slot : Option NodeId} :
      b.Pulls l b₁ → b₁.next = (.ok none, b₂) →
      Nesting.start.firstTooDeep limit (l.map fun (t, span) => (t.kind, span)) = none →
      perform (l.map Prod.fst).toArray b₂.arena b₂.root = (some (.program root), a, slot) →
      Course b limit (.ok (), { b₂ with arena := a, root := slot })
  /-- The grammar has run twice. -/
  | stuck {l : List (Token × Span)} {b₁ b₂ : Bench} {position : Nat} {expected : List Class} {a : Arena}
      {slot : Option NodeId} : b.Pulls l b₁ → b₁.next = (.ok none, b₂) →
      Nesting.start.firstTooDeep limit (l.map fun (t, span) => (t.kind, span)) = none →
      perform (l.map Prod.fst).toArray b₂.arena b₂.root = (some (.stuck position expected), a, slot) →
      Course b limit
        (.error (.unexpected (offsetAt (l.map Prod.snd) position) (Class.describe expected)),
          { b₂ with arena := a, root := slot })

variable {b b₁ b₂ : Bench} {l : List (Token × Span)} {r : Except Failure (Option Token)} {f : Failure} {limit : Nat}

/-! ## Requests -/

/-- A request that fails makes no leaf. -/
theorem arena_eq_of_next_error (h : b.next = (.error f, b₁)) : b₁.arena = b.arena := by
  have hresult : (b.supply.next b.arena).result = .error f := congrArg Prod.fst h
  obtain rfl : b.next.2 = b₁ := congrArg Prod.snd h
  show (b.supply.next b.arena).arena = b.arena
  unfold Supply.next at hresult ⊢
  split
  · rfl
  · rfl
  · rfl
  · rename_i lexeme rest hentries
    rw [hentries] at hresult
    dsimp only at hresult ⊢
    cases hleaf : lexeme.leaf b.supply.policy with
    | none => rfl
    | some conversion =>
      rw [hleaf] at hresult
      dsimp only at hresult ⊢
      cases hvalue : conversion.value? with
      | none => rfl
      | some node =>
        rw [hvalue] at hresult
        cases hresult

theorem root_of_next (h : b.next = (r, b₁)) : b₁.root = b.root := by
  obtain rfl : b.next.2 = b₁ := congrArg Prod.snd h
  rfl

theorem entries_of_next (h : b.next = (r, b₁)) : b₁.supply.entries = b.supply.entries.drop 1 := by
  obtain rfl : b.next.2 = b₁ := congrArg Prod.snd h
  rw [entries_next, List.drop_one]

namespace Pulls

theorem root_eq (h : b.Pulls l b₁) : b₁.root = b.root := by
  induction h with
  | nil => rfl
  | cons hnext _ ih => rw [ih, root_of_next hnext]

theorem entries_eq (h : b.Pulls l b₁) : b₁.supply.entries = b.supply.entries.drop l.length := by
  induction h with
  | nil => rfl
  | cons hnext _ ih => rw [ih, entries_of_next hnext, List.drop_drop, List.length_cons, Nat.add_comm]

theorem drain_of_error (h : b.Pulls l b₁) (hnext : b₁.next = (.error f, b₂)) (taken : Array (Token × Span)) :
    b.drain taken = (.error f, b₂) := by
  induction h generalizing taken with
  | nil => exact drain_error hnext
  | cons hfirst _ ih => rw [drain_some hfirst, ih hnext]

end Pulls

/-- Taking all tokens is making requests up to the first that is not answered with a token. -/
theorem exists_pulls (taken : Array (Token × Span)) (b : Bench) :
    ∃ l b₁ b₂, b.Pulls l b₁ ∧
      ((∃ f, b₁.next = (.error f, b₂) ∧ b.drain taken = (.error f, b₂)) ∨
        b₁.next = (.ok none, b₂) ∧ b.drain taken = (.ok (taken.toList ++ l), b₂)) := by
  fun_induction drain taken b with
  | case1 taken b t b' hnext ih =>
    obtain ⟨l, b₁, b₂, hpulls, ⟨f, hend, hdrain⟩ | ⟨hend, hdrain⟩⟩ := ih
    · exact ⟨_, b₁, b₂, .cons hnext hpulls, .inl ⟨f, hend, hdrain⟩⟩
    · refine ⟨_, b₁, b₂, .cons hnext hpulls, .inr ⟨hend, ?_⟩⟩
      rw [hdrain]
      simp
  | case2 taken b b' hnext => exact ⟨[], b, b', .nil, .inr ⟨hnext, by rw [List.append_nil]⟩⟩
  | case3 taken b f b' hnext => exact ⟨[], b, b', .nil, .inl ⟨f, hnext, rfl⟩⟩

/-! ## Courses -/

/-- A bench goes the way of the grammar that records by itself. -/
theorem course_readProgram (b : Bench) (limit : Nat) : Course b limit (b.readProgram limit) := by
  obtain ⟨l, b₁, b₂, hpulls, ⟨f, hend, hdrain⟩ | ⟨hend, hdrain⟩⟩ := exists_pulls #[] b
  · rw [readProgram, hdrain]
    exact .fault hpulls hend
  · rw [List.nil_append] at hdrain
    cases hn : Nesting.start.firstTooDeep limit (l.map fun (t, span) => (t.kind, span)) with
    | some span =>
      rw [readProgram_of_tooDeep hdrain hn]
      exact .tooDeep hpulls hend hn
    | none =>
      have hperform := perform_eq (l.map Prod.fst).toArray b₂.arena b₂.root
      rcases hread : read (l.map Prod.fst).toArray b₂.arena with ⟨root | ⟨position, expected⟩, a⟩
      · rw [hread] at hperform
        rw [readProgram_of_program hdrain hn hread]
        exact .program hpulls hend hn hperform
      · rw [hread] at hperform
        rw [readProgram_of_stuck hdrain hn hread]
        exact .stuck hpulls hend hn hperform

/-- A course that does not end well leaves the root alone. -/
theorem Course.root_of_error (h : Course b limit (.error f, b₁)) : b₁.root = b.root := by
  cases h with
  | fault hpulls hend => rw [root_of_next hend, hpulls.root_eq]
  | tooDeep hpulls hend => rw [root_of_next hend, hpulls.root_eq]
  | @stuck l b₁ b₂ position expected a slot hpulls hend hn hperform =>
    rw [perform_eq, Prod.mk.injEq, Prod.mk.injEq, Option.some.injEq] at hperform
    obtain ⟨hreading, -, hslot⟩ := hperform
    rw [hreading] at hslot
    show slot = b.root
    rw [← hslot, Reading.recorded, root_of_next hend, hpulls.root_eq]

/-- A course that ends well has read a program, and its root takes the place of any other. -/
theorem Course.exists_program (h : Course b limit (.ok (), b₁)) :
    ∃ l b₂ b₃ ss, b.Pulls l b₂ ∧ b₂.next = (.ok none, b₃) ∧ DerivesProgram (l.map Prod.fst) ss ∧
      b₁.root = some (buildProgram ss b₃.arena).1 ∧ b₁.arena = (buildProgram ss b₃.arena).2 := by
  cases h with
  | @program l b₂ b₃ root a slot hpulls hend hn hperform =>
    rw [perform_eq, Prod.mk.injEq, Prod.mk.injEq, Option.some.injEq] at hperform
    obtain ⟨hreading, harena, hslot⟩ := hperform
    obtain ⟨ss, hss⟩ := exists_derives_of_read (Prod.ext hreading harena)
    rw [read_of_derives hss] at harena hslot
    exact ⟨l, b₂, b₃, ss, hpulls, hend, hss, hslot.symm, harena.symm⟩

/-- Reading records a root exactly if it ends well, and then it is that of the program it has read. A request that fails
is the last, and nothing is made for it or behind it. Nodes that are there stay, and the grammar never reads on its
second run what it did not read on its first. -/
theorem readProgram_records (b : Bench) (limit : Nat) :
    Course b limit (b.readProgram limit) ∧
    b.arena.Extends (b.readProgram limit).2.arena ∧
    ((b.readProgram limit).1 = .ok () →
      ∃ l b₁ b₂ ss, b.Pulls l b₁ ∧ b₁.next = (.ok none, b₂) ∧ DerivesProgram (l.map Prod.fst) ss ∧
        (b.readProgram limit).2.root = some (buildProgram ss b₂.arena).1 ∧
        (b.readProgram limit).2.arena = (buildProgram ss b₂.arena).2) ∧
    (∀ f, (b.readProgram limit).1 = .error f → (b.readProgram limit).2.root = b.root) ∧
    (∀ l b₁ b₂ f, b.Pulls l b₁ → b₁.next = (.error f, b₂) →
      b.readProgram limit = (.error f, b₂) ∧ b₂.arena = b₁.arena ∧
      b₂.supply.entries = b.supply.entries.drop (l.length + 1)) ∧
    ∀ (tokens : Array Token) (a : Arena) (slot : Option NodeId), (perform tokens a slot).1 ≠ none := by
  have hcourse := course_readProgram b limit
  have hends {outcome : Except Failure Unit} (h : (b.readProgram limit).1 = outcome) :
      Course b limit (outcome, (b.readProgram limit).2) := by
    rw [← h]
    exact hcourse
  obtain ⟨nodes, hnodes⟩ := b.exists_programMakes limit
  refine ⟨hcourse, ⟨nodes, hnodes.arena_eq⟩, fun hok => ?_, fun f hf => ?_, fun l b₁ b₂ f hpulls hend => ?_, ?_⟩
  · exact (hends hok).exists_program
  · exact (hends hf).root_of_error
  · refine ⟨?_, arena_eq_of_next_error hend, ?_⟩
    · rw [readProgram, hpulls.drain_of_error hend]
    · rw [entries_of_next hend, hpulls.entries_eq, List.drop_drop]
  · intro tokens a slot
    rw [perform_eq]
    exact Option.some_ne_none _

end Formula.Bench
