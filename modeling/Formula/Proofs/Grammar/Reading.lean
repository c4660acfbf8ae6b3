import Formula.Proofs.Grammar.Completeness

/-!
# The grammar reads programs and nothing else

Tokens are read as a program if and only if they are one (`read_of_derives`, `exists_derives_of_read`). If the tokens
have their leaves in the arena, they are at most one program (`DerivesProgram.unique`), and the root that is read is
the root of that program and of no other (`programIsAt_read_iff`).
-/

namespace Formula.Grammar

variable {tokens : Array Token} {w : List Token} {ss ss' : List Statement} {a b : Arena} {root : NodeId}

theorem Matches.exists_eq {α : Type} {r : Rule α} {i j : Nat} {run : Run} {x : α} (h : Matches tokens r i run x j a) :
    ∃ run', r tokens i run = (.matched x j, run') ∧ run'.arena = a := by
  rw [Matches, Meets] at h
  split at h
  · rename_i heq
    obtain ⟨rfl, rfl, ha⟩ := h
    exact ⟨_, heq, ha⟩
  · cases h
  · cases h

/-- Tokens of a program are read, and the nodes of the program are all that is made. -/
theorem read_of_derives (h : DerivesProgram tokens.toList ss) :
    read tokens a = (.program (buildProgram ss a).1, (buildProgram ss a).2) := by
  obtain ⟨run', hrun, ha⟩ := (matches_program h (Nat.le_refl _) ⟨a, .locate 0⟩).exists_eq
  rw [read, run, hrun]
  simp only [ha]

/-- What is read is a program. -/
theorem exists_derives_of_read (h : read tokens a = (.program root, b)) : ∃ ss, DerivesProgram tokens.toList ss := by
  have hmeets := recognizes_program (recognizes_expression tokens tokens.size).1 ⟨a, .locate 0⟩
  unfold read at h
  split at h
  · rename_i heq
    exact (meets_of_matched heq).mp hmeets
  · cases h

/-- Tokens that are no program are not read. -/
theorem exists_read_eq_stuck (h : ∀ ss, ¬ DerivesProgram tokens.toList ss) (a : Arena) :
    ∃ position expected b, read tokens a = (.stuck position expected, b) := by
  rcases hread : read tokens a with ⟨root | ⟨position, expected⟩, b⟩
  · obtain ⟨ss, hss⟩ := exists_derives_of_read hread
    exact absurd hss (h ss)
  · exact ⟨position, expected, b, rfl⟩

/-- Tokens that are no program are run over twice, and the second run makes its nodes behind those of the first. -/
theorem snd_read_of_not_derives (h : ∀ ss, ¬ DerivesProgram tokens.toList ss) (a : Arena) :
    (read tokens a).2 = (run tokens (run tokens a (.locate 0)).2.arena
      (.explain (run tokens a (.locate 0)).2.probe.position [])).2.arena := by
  obtain ⟨position, expected, b, hread⟩ := exists_read_eq_stuck h a
  unfold read at hread ⊢
  split at hread
  · cases hread
  · rename_i heq
    rw [heq]

/-! ## The program at the root -/

/-- Every token of a valued kind comes with a leaf of the arena. -/
def HasLeaves (a : Arena) (w : List Token) : Prop :=
  ∀ t ∈ w, t.kind.isValued = true → ∃ id, t.payload = some id ∧ a.IsLeaf id

theorem HasLeaves.isLeaf (hw : HasLeaves a w) (h : DerivesProgram w ss) :
    ∀ x ∈ ss.flatMap Statement.leaves, a.IsLeaf x := by
  rw [h.leaves_eq]
  intro x hx
  obtain ⟨t, ht, hleaf⟩ := List.mem_filterMap.mp hx
  unfold leaf? at hleaf
  split at hleaf
  · obtain ⟨id, hid, hl⟩ := hw t ht ‹_›
    cases Option.some.inj (hid.symm.trans hleaf)
    exact hl
  · cases hleaf

/-- The nodes that are made for a program are the program. -/
theorem DerivesProgram.isAt_build (h : DerivesProgram w ss) (hw : HasLeaves a w) :
    ProgramIsAt (buildProgram ss a).2 ss (buildProgram ss a).1 :=
  programIsAt_buildProgram h.ne_nil (hw.isLeaf h)

/-- Tokens are at most one program: the grammar reads them in one way, and a root is the root of one program. -/
theorem DerivesProgram.unique (h : DerivesProgram w ss) (h' : DerivesProgram w ss') (hw : HasLeaves a w) :
    ss = ss' := by
  have hread : read w.toArray a = (.program (buildProgram ss a).1, (buildProgram ss a).2) := read_of_derives h
  have hread' : read w.toArray a = (.program (buildProgram ss' a).1, (buildProgram ss' a).2) := read_of_derives h'
  rw [hread, Prod.mk.injEq, Reading.program.injEq] at hread'
  have hat := h.isAt_build hw
  rw [hread'.1, hread'.2] at hat
  exact hat.unique (h'.isAt_build hw)

/-- The root that is read is the root of the program that the tokens are, and of no other. -/
theorem programIsAt_read_iff (hw : HasLeaves a tokens.toList) (h : read tokens a = (.program root, b)) :
    ProgramIsAt b ss root ↔ DerivesProgram tokens.toList ss := by
  obtain ⟨ss', hss'⟩ := exists_derives_of_read h
  have hat := hss'.isAt_build hw
  rw [read_of_derives hss', Prod.mk.injEq, Reading.program.injEq] at h
  rw [h.1, h.2] at hat
  constructor
  · intro hss
    rwa [hss.unique hat]
  · intro hss
    rwa [hss.unique hss' hw]

end Formula.Grammar
