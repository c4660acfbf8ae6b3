import Formula.Proofs.Bench.Drain
import Formula.Proofs.Grammar.Reading

/-!
# What a bench reads as a program

A bench takes all tokens off its supply, then checks how deep they nest, and then has the grammar read them. There is
one lemma for each way this ends. Together they say that exactly the tokens of a program are read, and that the root is
that of the program (`readProgram_exact`).
-/

namespace Formula.Bench

open Grammar

variable {b b' : Bench} {limit : Nat}

section

variable {l : List (Token × Span)} {ss : List Statement}

/-- Tokens that nest too deep are refused before the grammar is run. -/
theorem readProgram_of_tooDeep {span : Span} (h : b.drain #[] = (.ok l, b'))
    (hn : Nesting.start.firstTooDeep limit (l.map fun (t, span) => (t.kind, span)) = some span) :
    b.readProgram limit = (.error (.tooDeep span.start limit), b') := by
  rw [readProgram, h]
  simp only [hn]

section

variable (h : b.drain #[] = (.ok l, b'))
  (hn : Nesting.start.firstTooDeep limit (l.map fun (t, span) => (t.kind, span)) = none)
include h hn

/-- What is read as a program has its root recorded. -/
theorem readProgram_of_program {root : NodeId} {a : Arena}
    (hread : read (l.map Prod.fst).toArray b'.arena = (.program root, a)) :
    b.readProgram limit = (.ok (), { b' with arena := a, root := some root }) := by
  rw [readProgram, h]
  simp only [hn]
  rw [hread]

/-- Where reading is stuck it is a failure, and records nothing. -/
theorem readProgram_of_stuck {position : Nat} {expected : List Class} {a : Arena}
    (hread : read (l.map Prod.fst).toArray b'.arena = (.stuck position expected, a)) :
    b.readProgram limit = (.error (.unexpected (offsetAt (l.map Prod.snd) position) (Class.describe expected)),
      { b' with arena := a }) := by
  rw [readProgram, h]
  simp only [hn]
  rw [hread]

/-- The root of a program is recorded. -/
theorem readProgram_of_derives (hss : DerivesProgram (l.map Prod.fst) ss) :
    b.readProgram limit = (.ok (), { b' with
      arena := (buildProgram ss b'.arena).2
      root := some (buildProgram ss b'.arena).1 }) :=
  readProgram_of_program h hn (read_of_derives hss)

/-- What the grammar has made of other tokens is left in the arena. -/
theorem readProgram_of_not_derives (hss : ∀ ss, ¬ DerivesProgram (l.map Prod.fst) ss) :
    ∃ offset expected, b.readProgram limit = (.error (.unexpected offset expected),
      { b' with arena := (read (l.map Prod.fst).toArray b'.arena).2 }) := by
  have hss : ∀ ss, ¬ DerivesProgram (l.map Prod.fst).toArray.toList ss := hss
  obtain ⟨position, expected, a, hread⟩ := exists_read_eq_stuck hss b'.arena
  rw [hread]
  exact ⟨_, _, readProgram_of_stuck h hn hread⟩

end

end

/-- Tokens that nest no deeper than the limit, and that have their leaves in the arena, are read if and only if they are
a program. Then they are one program only, and the root that is recorded is the root of it and of no other. -/
theorem readProgram_exact {l : List (Token × Span)} (h : b.supply.entries = l.map fun (t, span) => .token t span)
    (hw : HasLeaves b.arena (l.map Prod.fst))
    (hn : Nesting.start.firstTooDeep limit (l.map fun (t, span) => (t.kind, span)) = none) :
    ((b.readProgram limit).1 = .ok () ↔ ∃ ss, DerivesProgram (l.map Prod.fst) ss) ∧
    ((b.readProgram limit).1 = .ok () →
      ∃ root ss, (b.readProgram limit).2.root = some root ∧
        (∀ ss', DerivesProgram (l.map Prod.fst) ss' ↔ ss' = ss) ∧
        ∀ ss', ProgramIsAt (b.readProgram limit).2.arena ss' root ↔ ss' = ss) := by
  obtain ⟨b', hdrain, ha⟩ := drain_tokens #[] l h
  rw [List.nil_append] at hdrain
  by_cases hss : ∃ ss, DerivesProgram (l.map Prod.fst) ss
  · obtain ⟨ss, hss⟩ := hss
    have hat := hss.isAt_build hw
    rw [readProgram_of_derives hdrain hn hss, ha]
    refine ⟨⟨fun _ => ⟨ss, hss⟩, fun _ => rfl⟩, fun _ => ⟨_, ss, rfl, fun ss' => ?_, fun ss' => ?_⟩⟩
    · constructor
      · exact fun hss' => hss'.unique hss hw
      · rintro rfl
        exact hss
    · constructor
      · exact fun hat' => hat'.unique hat
      · rintro rfl
        exact hat
  · obtain ⟨offset, expected, hread⟩ := readProgram_of_not_derives hdrain hn (not_exists.mp hss)
    rw [hread]
    refine ⟨⟨?_, fun h => absurd h hss⟩, ?_⟩ <;> (intro h; cases h)

section

/-- A bench with the tokens of `a = -b; a`. -/
def benchOfPair : Bench where
  arena := ⟨0, #[.identifier "a", .identifier "b", .identifier "a"]⟩
  root := none
  supply := ⟨.strict, pair.map fun (t, span) => .token t span, .origin⟩
  journal := #[]
where
  pair : List (Token × Span) :=
    [(⟨.identifier, some ⟨0, 0⟩⟩, ⟨0, 1⟩), (⟨.assign, none⟩, ⟨2, 3⟩), (⟨.minus, none⟩, ⟨4, 5⟩),
      (⟨.identifier, some ⟨0, 1⟩⟩, ⟨5, 6⟩), (⟨.semicolon, none⟩, ⟨6, 7⟩), (⟨.identifier, some ⟨0, 2⟩⟩, ⟨8, 9⟩)]

/-- The two statements are read as they are written. -/
theorem readProgram_exact_pair :
    (benchOfPair.readProgram 1).1 = .ok () ∧ ∃ root, (benchOfPair.readProgram 1).2.root = some root ∧
      ProgramIsAt (benchOfPair.readProgram 1).2.arena
        [.assignment ⟨0, 0⟩ (.negation (.leaf ⟨0, 1⟩)), .expression (.leaf ⟨0, 2⟩)] root := by
  have hw : HasLeaves benchOfPair.arena (benchOfPair.pair.map Prod.fst) := by
    simp [HasLeaves, benchOfPair, benchOfPair.pair, Kind.isValued, Arena.IsLeaf, Arena.node?_eq, Node.isLeaf]
  have hn : Nesting.start.firstTooDeep 1 (benchOfPair.pair.map fun (t, span) => (t.kind, span)) = none := by decide
  have hleaf : ∀ (t : Token) (id : NodeId), t.kind.isValued = true → t.payload = some id →
      Derives .factor [t] (.leaf id) := fun _ _ hv hp => .ofAtom (.leaf hv hp)
  have hss : DerivesProgram (benchOfPair.pair.map Prod.fst)
      [.assignment ⟨0, 0⟩ (.negation (.leaf ⟨0, 1⟩)), .expression (.leaf ⟨0, 2⟩)] := by
    refine .plain (.more (u := _ :: _ :: _ :: [_]) (.single (.assignment rfl rfl rfl ?_)) rfl (.expression ?_))
    · exact .ofTerm (.ofFactor (.negation rfl (hleaf _ _ rfl rfl)))
    · exact .ofTerm (.ofFactor (hleaf _ _ rfl rfl))
  obtain ⟨hok, hroot⟩ := readProgram_exact (b := benchOfPair) (l := benchOfPair.pair) rfl hw hn
  have hread := hok.mpr ⟨_, hss⟩
  obtain ⟨root, ss, hrecorded, hderives, hat⟩ := hroot hread
  exact ⟨hread, root, hrecorded, (hat _).mpr ((hderives _).mp hss)⟩

end

end Formula.Bench
