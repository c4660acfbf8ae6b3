import Formula.Proofs.Grammar.Building

/-!
# What is derivable is matched, and how

Tokens with a derivation are matched by the rule of their category, and the rule makes the nodes of the tree of the
derivation and no others (`matches_program`). In particular no alternative that is given up on the way has made any.
The induction is on the derivation (`Derives.complete`), with what must not follow as a hypothesis of the category.
-/

namespace Formula.Grammar

open Rule hiding pure bind

/-! ## Derivations -/

/-- What the rules that nest no deeper than the bound make of tokens with a derivation. -/
def Complete (tokens : Array Token) (n : Nat) : Category → Nat → Tree → Nat → Prop
  | .atom, i, e, j => Builds tokens (atom (inner n)) i e j
  | .factor, i, e, j => Builds tokens (factor (inner n)) i e j
  | .term, i, e, j => LoopsTo tokens (product (inner n)) (productStep (inner n)) i e j ∧
      LoopsTo tokens (sum (inner n)) (sumStep (inner n)) i e j
  | .expr, i, e, j => NoMultiplicative tokens j → LoopsTo tokens (sum (inner n)) (sumStep (inner n)) i e j

/-- An atom does not start with a minus. -/
theorem Derives.head_ne_minus {w : List Token} {e : Tree} (h : Derives .atom w e) :
    ∃ t u, w = t :: u ∧ t.kind ≠ .minus := by
  cases h with
  | leaf hv _ => exact ⟨_, [], rfl, fun hk => by rw [hk] at hv; cases hv⟩
  | paren ht _ _ => exact ⟨_, _, rfl, by rw [ht]; decide⟩

theorem Derives.complete {tokens : Array Token} {c : Category} {w : List Token} {e : Tree} (h : Derives c w e) :
    ∀ {n i j : Nat}, w.length ≤ n → Reads tokens i w j → Complete tokens n c i e j := by
  induction h with
  | @additive u v t l r o _ ho _ ihl ihr =>
    intro n i j hn hw hj
    obtain ⟨hu, hv⟩ := hw.split
    obtain ⟨ht, hv⟩ := hv.head
    simp only [List.length_append, List.length_cons] at hn
    have hm : NoMultiplicative tokens (i + u.length) :=
      noMultiplicative_of_getElem? ht (Kind.multiplicative?_of_additive? ho)
    have hl := ihl (n := n) (by omega) hu hm
    have hr := (ihr (n := n) (by omega) hv).1.builds (misses_productStep hj)
    exact hl.binary hv.le (hw.le_size (by simp)) (matches_sumStep_of_additive ht ho hr)
  | ofTerm _ ih =>
    intro n i j hn hw _
    exact (ih hn hw).2
  | @multiplicative u v t l r o _ ho _ ihl ihr =>
    intro n i j hn hw
    obtain ⟨hu, hv⟩ := hw.split
    obtain ⟨ht, hv⟩ := hv.head
    simp only [List.length_append, List.length_cons] at hn
    have hl := ihl (n := n) (by omega) hu
    have hr : Builds tokens (factor (inner n)) (i + u.length + 1) r j := ihr (by omega) hv
    have hsize := hw.le_size (by simp)
    exact ⟨hl.1.binary hv.le hsize (matches_productStep ht ho hr),
      hl.2.binary hv.le hsize (matches_sumStep_of_multiplicative ht ho hr)⟩
  | ofFactor _ ih =>
    intro n i j hn hw
    have h : Builds tokens (factor (inner n)) i _ j := ih hn hw
    exact ⟨h.loopsTo, h.loopsTo⟩
  | @negation w t e hk _ ih =>
    intro n i j hn hw
    obtain ⟨ht, hw⟩ := hw.head
    cases n with
    | zero => simp at hn
    | succ n =>
      have h : Builds tokens (expression n .factor) (i + 1) e j := by
        rw [expression_eq]
        exact ih (by simpa using hn) hw
      exact builds_negation ht hk h
  | ofAtom ha ih =>
    intro n i j hn hw
    obtain ⟨t, u, rfl, hk⟩ := ha.head_ne_minus
    exact Builds.factor_of_atom (ih hn hw) hw.head.1 hk
  | leaf hv hp =>
    intro n i j _ hw
    obtain ⟨ht, hw⟩ := hw.head
    cases hw.1
    exact builds_leaf ht hv hp
  | @paren w t t' e hk _ hk' ih =>
    intro n i j hn hw
    obtain ⟨ht, hw⟩ := hw.head
    obtain ⟨hin, hclose⟩ := hw.split
    obtain ⟨ht', hend⟩ := hclose.head
    cases hend.1
    cases n with
    | zero => simp at hn
    | succ n =>
      have hadd : NoAdditive tokens (i + 1 + w.length) := noAdditive_of_getElem? ht' (by rw [hk']; rfl)
      have hmul : NoMultiplicative tokens (i + 1 + w.length) := noMultiplicative_of_getElem? ht' (by rw [hk']; rfl)
      have h : Builds tokens (expression n .sum) (i + 1) e (i + 1 + w.length) := by
        rw [expression_eq]
        simp only [List.length_cons, List.length_append, List.length_nil] at hn
        exact (ih (n := n) (by omega) hin hmul).builds (misses_sumStep hadd hmul)
      exact builds_paren ht hk h ht' hk'

/-! ## Statements -/

section Statements

variable {tokens : Array Token} {n i j : Nat} {run : Run} {w : List Token}

/-- A statement may end at the position: a semicolon stands there, or nothing does. -/
def AtBreak (tokens : Array Token) (j : Nat) : Prop :=
  ∀ t, tokens[j]? = some t → t.kind = .semicolon

theorem atBreak_of_semicolon {t : Token} (ht : tokens[j]? = some t) (hk : t.kind = .semicolon) : AtBreak tokens j := by
  intro t' ht'
  cases Option.some.inj (ht.symm.trans ht')
  exact hk

theorem atBreak_of_size_le (h : tokens.size ≤ j) : AtBreak tokens j := by
  intro t ht
  rw [Array.getElem?_eq_none h] at ht
  cases ht

theorem AtBreak.noAdditive (h : AtBreak tokens j) : NoAdditive tokens j := fun t ht => by
  rw [h t ht]
  rfl

theorem AtBreak.noMultiplicative (h : AtBreak tokens j) : NoMultiplicative tokens j := fun t ht => by
  rw [h t ht]
  rfl

/-- An expression is read to its end where no operator follows. -/
theorem builds_expression {e : Tree} (he : Derives .expr w e) (hn : w.length ≤ n) (hw : Reads tokens i w j)
    (hadd : NoAdditive tokens j) (hmul : NoMultiplicative tokens j) : Builds tokens (expression n .sum) i e j := by
  rw [expression_eq]
  have h : LoopsTo tokens (sum (inner n)) (sumStep (inner n)) i e j := he.complete hn hw hmul
  exact h.builds (misses_sumStep hadd hmul)

/-- What stands at the position does not go on with the statement before it. -/
structure Closes (tokens : Array Token) (w : List Token) (j : Nat) : Prop where
  noAdditive : NoAdditive tokens j
  noMultiplicative : NoMultiplicative tokens j
  noAssign {t t' : Token} {id : NodeId} : w = [t] → t.kind = .identifier → t.payload = some id →
    tokens[j]? = some t' → t'.kind ≠ .assign

theorem AtBreak.closes (h : AtBreak tokens j) (w : List Token) : Closes tokens w j where
  noAdditive := h.noAdditive
  noMultiplicative := h.noMultiplicative
  noAssign _ _ _ ht := by
    rw [h _ ht]
    decide

/-- An assignment is missed where no '=' stands behind a name. -/
theorem misses_assignment_of {expr : Rule NodeId} (h : ∀ t id t', tokens[i]? = some t → t.kind = .identifier →
    t.payload = some id → tokens[i + 1]? = some t' → t'.kind ≠ .assign) (run : Run) :
    Misses tokens (assignment expr) i run := by
  refine Meets.bind (meets_leaf (fun t id ht hc hp => (misses_symbol fun t' ht' hc' => ?_).bind) fun _ => rfl)
  exact h t id t' ht (Class.eq_kind hc (by decide)) hp ht' (Class.eq_kind hc' (by decide))

/-- An expression is not taken for an assignment: what stands behind its first token is no '='. -/
theorem misses_assignment {expr : Rule NodeId} {e : Tree} (he : Derives .expr w e) (hw : Reads tokens i w j)
    (hj : Closes tokens w j) : Misses tokens (assignment expr) i run := by
  refine misses_assignment_of (fun t id t' ht hk hp ht' => ?_) run
  obtain ⟨t₀, u, rfl⟩ := List.exists_cons_of_ne_nil he.ne_nil
  obtain ⟨ht₀, hu⟩ := hw.head
  obtain rfl : t₀ = t := Option.some.inj (ht₀.symm.trans ht)
  cases u with
  | nil =>
    cases hu.1
    exact hj.noAssign rfl hk hp ht'
  | cons t₁ u =>
    obtain rfl : t₁ = t' := Option.some.inj (hu.head.1.symm.trans ht')
    exact (he.kind_ne t₁ (by simp)).1

theorem matches_statement {s : Statement} (hs : DerivesStatement w s) (hn : w.length ≤ n) (hw : Reads tokens i w j)
    (hj : Closes tokens w j) (run : Run) :
    Matches tokens (statement (expression n .sum)) i run (s.build run.arena).1 j (s.build run.arena).2 := by
  cases hs with
  | @assignment w t t' target e hk hp hk' he =>
    obtain ⟨ht, hw⟩ := hw.head
    obtain ⟨ht', hw⟩ := hw.head
    simp only [List.length_cons] at hn
    refine Matches.orElse ((matches_leaf ht (by rw [hk]; rfl) hp).bind fun run₁ h₁ => ?_)
    refine (matches_symbol ht' (by rw [hk']; rfl)).bind fun run₂ h₂ => ?_
    refine (builds_expression he (by omega) hw hj.noAdditive hj.noMultiplicative run₂).bind fun run₃ h₃ => ?_
    rw [h₂, h₁] at h₃ ⊢
    rw [Statement.build_assignment, ← h₃]
    exact matches_create _
  | expression he =>
    refine (misses_assignment he hw hj).orElse fun run₁ h₁ => ?_
    rw [← h₁]
    exact builds_expression he hn hw hj.noAdditive hj.noMultiplicative run₁

/-- The repetition of statements comes by with those that are derived, the last of them first. -/
theorem DerivesStatements.complete {ss : List Statement} (hss : DerivesStatements w ss) :
    ∀ {j : Nat}, w.length ≤ n → Reads tokens i w j → AtBreak tokens j →
    ∀ (run : Run) (Q : List NodeId → Nat → Run → Prop) (F : Run → Prop) (E : Prop),
    (∀ run', run'.arena = (buildAll ss run.arena).2 →
      Meets tokens (iterate (nextStatement (expression n .sum)) (buildAll ss run.arena).1.reverse) j run' Q F E) →
    Meets tokens (statement (expression n .sum)) i run
      (fun x k run' => Meets tokens (iterate (nextStatement (expression n .sum)) [x]) k run' Q F E) F E := by
  induction hss with
  | single hs =>
    intro j hn hw hj run Q F E hk
    exact (matches_statement hs hn hw (hj.closes _) run).meets hk
  | @more u v t ss s _ hk hs ih =>
    intro j hn hw hj run Q F E hcont
    obtain ⟨hu, hv⟩ := hw.split
    obtain ⟨ht, hv⟩ := hv.head
    simp only [List.length_append, List.length_cons] at hn
    refine ih (by omega) hu (atBreak_of_semicolon ht hk) run Q F E fun run₁ h₁ => Meets.iterate_step ?_
    refine (matches_symbol ht (by rw [hk]; rfl)).bind fun run₂ h₂ => ?_
    refine (matches_statement hs (by omega) hv (hj.closes _) run₂).bind fun run₃ h₃ => meets_pure ?_
    refine ⟨hv.le, hw.le_size (by simp), ?_⟩
    rw [h₂, h₁] at h₃ ⊢
    have hbuild := buildAll_append ss [s] run.arena
    simp only [buildAll] at hbuild
    rw [hbuild] at hcont
    simpa using hcont run₃ h₃

/-- Nothing is left to read, so no class is found. -/
theorem misses_symbol_of_size_le {c : Class} (h : tokens.size ≤ i) : Misses tokens (symbol c) i run :=
  misses_symbol fun _ ht => absurd (lt_size_of_getElem? ht) (Nat.not_lt.mpr h)

theorem misses_leaf_of_size_le {c : Class} (h : tokens.size ≤ i) : Misses tokens (leaf c) i run :=
  misses_leaf fun _ ht => absurd (lt_size_of_getElem? ht) (Nat.not_lt.mpr h)

/-- No statement starts at the end of the tokens. -/
theorem misses_statement_of_size_le (h : tokens.size ≤ i) : Misses tokens (statement (expression n .sum)) i run := by
  refine (misses_leaf_of_size_le h).bind.or fun run₁ => ?_
  rw [expression_eq]
  refine Misses.bind ((misses_symbol_of_size_le h).bind.or fun _ => ?_)
  exact (misses_leaf_of_size_le h).or fun _ => (misses_leaf_of_size_le h).or fun _ => (misses_symbol_of_size_le h).bind

/-- The root of a program from the roots of its statements. -/
theorem matches_root (ss : List Statement) {a : Arena} (h : run.arena = (buildAll ss a).2) :
    Matches tokens (rootOf (buildAll ss a).1) i run (buildProgram ss a).1 i (buildProgram ss a).2 := by
  unfold buildProgram
  rcases hall : buildAll ss a with ⟨xs, b⟩
  rw [hall] at h
  obtain rfl : run.arena = b := h
  rcases xs with _ | ⟨x, _ | ⟨y, xs⟩⟩
  · exact matches_create _
  · exact meets_pure ⟨rfl, rfl, rfl⟩
  · exact matches_create _

/-- Statements that no other can follow are all that is read. -/
theorem matches_statements {ss : List Statement} (hss : DerivesStatements w ss) (hn : w.length ≤ n)
    (hw : Reads tokens i w j) (hj : AtBreak tokens j)
    (hnext : ∀ items run, Misses tokens (nextStatement (expression n .sum) items) j run) (run : Run) :
    Matches tokens (statements (expression n .sum)) i run (buildAll ss run.arena).1 j (buildAll ss run.arena).2 := by
  refine Meets.bind ((hss.complete hn hw hj run _ _ _ fun run₁ h₁ => ?_).mono (fun _ _ _ => Meets.bind)
    (fun _ => id) id)
  refine Meets.iterate_step ((hnext _ run₁).mono (fun _ _ _ => False.elim) (fun run₂ h₂ => meets_pure ?_) id)
  exact ⟨List.reverse_reverse _, rfl, h₂.trans h₁⟩

/-- Tokens of a program are matched, and the nodes made are those of its statements. -/
theorem matches_program {ss : List Statement} (h : DerivesProgram tokens.toList ss) (hn : tokens.size ≤ n) (run : Run) :
    Matches tokens (program (expression n .sum)) 0 run (buildProgram ss run.arena).1 tokens.size
      (buildProgram ss run.arena).2 := by
  have hall := reads_all tokens
  have hsize : tokens.toList.length = tokens.size := Array.length_toList
  generalize tokens.toList = w at h hall hsize
  have hend : ∀ run₁ : Run, run₁.arena = (buildAll ss run.arena).2 →
      Matches tokens (do Rule.atEnd; rootOf (buildAll ss run.arena).1) tokens.size run₁
        (buildProgram ss run.arena).1 tokens.size (buildProgram ss run.arena).2 := fun run₁ h₁ =>
    Meets.bind (meets_atEnd (fun _ => matches_root ss h₁) fun hlt => absurd hlt (Nat.lt_irrefl _))
  cases h with
  | plain hss =>
    have hnext : ∀ items run, Misses tokens (nextStatement (expression n .sum) items) tokens.size run :=
      fun _ _ => (misses_symbol_of_size_le (Nat.le_refl _)).bind
    have hmatch := matches_statements hss (by omega) hall (atBreak_of_size_le (Nat.le_refl _)) hnext run
    refine hmatch.bind fun run₁ h₁ => Meets.bind (meets_optional ?_)
    refine (misses_symbol_of_size_le (Nat.le_refl _)).mono (fun _ _ _ => False.elim) (fun run₂ h₂ => ?_) id
    exact hend run₂ (h₂.trans h₁)
  | @closed w t ss hss hk =>
    obtain ⟨hw, hlast⟩ := hall.split
    obtain ⟨ht, hlast⟩ := hlast.head
    have hj : 0 + w.length + 1 = tokens.size := hlast.1.symm
    have hnext : ∀ items run, Misses tokens (nextStatement (expression n .sum) items) (0 + w.length) run :=
      fun _ run => (matches_symbol ht (by rw [hk]; rfl)).bind fun run₁ h₁ => by
        rw [← h₁]
        exact (misses_statement_of_size_le (Nat.le_of_eq hj.symm)).bind
    have hmatch := matches_statements hss (by omega) hw (atBreak_of_semicolon ht hk) hnext run
    refine hmatch.bind fun run₁ h₁ => Meets.bind (meets_optional ?_)
    refine (matches_symbol ht (by rw [hk]; rfl)).meets fun run₂ h₂ => ?_
    rw [hj]
    exact hend run₂ (h₂.trans h₁)

end Statements

end Formula.Grammar
