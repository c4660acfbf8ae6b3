import Formula.Proofs.Budget
import Formula.Proofs.Grammar.Depth
import Formula.Proofs.Grammar.Reading

/-!
# The nodes that are made on the way

The grammar stays within the budget of the tokens, whether they are a program or not (`size_run_le`).

A rule pays for the nodes it makes with the tokens that it reads, as often as it may come to read them. A rule that
fails may have read any of the tokens from its start on, and pays with all of them. A sum or a product that matches has
perhaps tried one more operator behind what it has read; the nodes made there are its debt, and the tokens from its end
on can pay for them. A product inside a sum has a debt only where the sum tries the same operator again, so its debt is
paid for twice.
-/

namespace Formula.Grammar

open Rule hiding pure bind

/-- What the tokens before the position can pay for. -/
def paid (tokens : Array Token) (i : Nat) : Nat :=
  (budgetAt tokens i).nodes

/-- What all tokens can pay for. -/
def total (tokens : Array Token) : Nat :=
  paid tokens tokens.size

/-- What the nodes of a run amount to, if they are made as often as the token at the position may be read. -/
def worth (tokens : Array Token) (i : Nat) (run : Run) : Nat :=
  (budgetAt tokens i).times * run.arena.size

/-- An operand has been read between the positions. -/
structure Settled (tokens : Array Token) (i j : Nat) : Prop where
  lt : i < j
  le_size : j ≤ tokens.size
  budget : (budgetAt tokens i).Settles (budgetAt tokens j)

/-- An operator between two operands. -/
theorem Settled.operator {tokens : Array Token} {i j k : Nat} (hj : Settled tokens i j)
    (houter : (budgetAt tokens (j + 1)).outer = (budgetAt tokens j).outer)
    (htimes : (budgetAt tokens (j + 1)).times = (budgetAt tokens j).times) (hk : Settled tokens (j + 1) k) :
    Settled tokens i k :=
  ⟨Nat.lt_trans hj.lt (Nat.lt_of_succ_lt hk.lt), hk.le_size, hj.budget.operator houter htimes hk.budget⟩

/-- A factor is affordable at the position. If it fails, then also as often as it is tried. -/
def FactorAffordable (tokens : Array Token) (r : Rule NodeId) (i : Nat) : Prop :=
  ∀ run, Meets tokens r i run
    (fun _ j run' => Settled tokens i j ∧ (budgetAt tokens j).inSum = (budgetAt tokens i).inSum ∧
      worth tokens i run' + paid tokens i ≤ worth tokens i run + paid tokens j)
    (fun run' => (budgetAt tokens i).tries * worth tokens i run' + paid tokens i ≤
      (budgetAt tokens i).tries * worth tokens i run + total tokens) True

/-- A sum is affordable at the position. If it matches with a debt, a token stands behind it with which neither a
parenthesis nor a statement ends. -/
def SumAffordable (tokens : Array Token) (r : Rule NodeId) (i : Nat) : Prop :=
  ∀ run, Meets tokens r i run
    (fun _ j run' => Settled tokens i j ∧ ∃ debt,
      worth tokens i run' + paid tokens i ≤ worth tokens i run + paid tokens j + debt ∧
      paid tokens j + debt ≤ total tokens ∧
      (debt = 0 ∨ ∃ t, tokens[j]? = some t ∧ t.kind ≠ .rightParen ∧ t.kind ≠ .semicolon))
    (fun run' => worth tokens i run' + paid tokens i ≤ worth tokens i run + total tokens) True

section Levels

variable {tokens : Array Token} {i j k : Nat} {t : Token} {run run' : Run} {enter : Level → Rule NodeId}

theorem paid_mono (h : i ≤ j) : paid tokens i ≤ paid tokens j :=
  nodes_budgetAt_mono h

theorem paid_le_total (tokens : Array Token) (i : Nat) : paid tokens i ≤ total tokens :=
  nodes_budgetAt_le_size tokens i

theorem worth_of_arena_eq (h : run'.arena = run.arena) : worth tokens i run' = worth tokens i run := by
  rw [worth, worth, h]

@[simp] theorem worth_mark (c : Class) (i j : Nat) (run : Run) :
    worth tokens i (run.mark c j) = worth tokens i run := rfl

theorem worth_push {node : Node} (h : run'.arena = run.arena.push node) :
    worth tokens i run' = worth tokens i run + (budgetAt tokens i).times := by
  rw [worth, worth, h, Arena.size_push, Nat.mul_succ]

theorem worth_of_times_eq (h : (budgetAt tokens j).times = (budgetAt tokens i).times) (run : Run) :
    worth tokens j run = worth tokens i run := by
  rw [worth, worth, h]

/-- A token that is no value and closes no parenthesis pays. -/
theorem paid_succ (ht : tokens[i]? = some t) (hk : t.kind.pays = true) :
    paid tokens (i + 1) = paid tokens i + (budgetAt tokens i).times := by
  rw [paid, budgetAt_succ ht, Budget.nodes_step, if_pos hk, paid]

theorem budget_behindOperand_succ (ht : tokens[i]? = some t) (hk : t.kind.endsOperand = false) :
    (budgetAt tokens (i + 1)).behindOperand = false := by
  rw [budgetAt_succ ht, Budget.behindOperand_step, hk]

/-- What is tried twice is affordable once. -/
theorem worth_le_of_tries (h : (budgetAt tokens i).tries * worth tokens i run' + paid tokens i ≤
    (budgetAt tokens i).tries * worth tokens i run + total tokens) :
    worth tokens i run' + paid tokens i ≤ worth tokens i run + total tokens := by
  have hpaid := paid_le_total tokens i
  rcases (budgetAt tokens i).tries_cases with htries | htries <;> rw [htries] at h <;> omega

/-! ## Factors -/

/-- The rules below a parenthesis and below a sign are affordable where they are entered. -/
structure EntersAffordable (tokens : Array Token) (enter : Level → Rule NodeId) : Prop where
  sum {i : Nat} : (budgetAt tokens i).behindOperand = false → SumAffordable tokens (enter .sum) i
  factor {i : Nat} : (budgetAt tokens i).behindOperand = false → FactorAffordable tokens (enter .factor) i

theorem affordable_leaf (ht : tokens[i]? = some t) (hv : t.kind.isValued = true) (h : run'.arena = run.arena) :
    Settled tokens i (i + 1) ∧ (budgetAt tokens (i + 1)).inSum = (budgetAt tokens i).inSum ∧
      worth tokens i run' + paid tokens i ≤ worth tokens i run + paid tokens (i + 1) := by
  obtain ⟨hsettles, hsum, -⟩ := (budgetAt tokens i).settles_step_of_isValued hv
  rw [← budgetAt_succ ht] at hsettles hsum
  refine ⟨⟨Nat.lt_succ_self i, lt_size_of_getElem? ht, hsettles⟩, hsum, ?_⟩
  rw [worth_of_arena_eq h]
  exact Nat.add_le_add_left (paid_mono (Nat.le_succ i)) _

section Enter

variable (h : EntersAffordable tokens enter)
include h

/-- A sum behind an opening parenthesis, and what a closing one makes of it. -/
theorem affordable_paren (ht : tokens[i]? = some t) (hk : t.kind = .leftParen) (run : Run) :
    Meets tokens (enter .sum) (i + 1) run
      (fun x j run' =>
        (∀ t', tokens[j]? = some t' → t'.kind = .rightParen →
          Settled tokens i (j + 1) ∧ (budgetAt tokens (j + 1)).inSum = (budgetAt tokens i).inSum ∧
          worth tokens i (run'.push (.paren x)) + paid tokens i ≤ worth tokens i run + paid tokens (j + 1)) ∧
        (budgetAt tokens i).tries * worth tokens i run' + paid tokens i ≤
          (budgetAt tokens i).tries * worth tokens i run + total tokens)
      (fun run' => (budgetAt tokens i).tries * worth tokens i run' + paid tokens i ≤
        (budgetAt tokens i).tries * worth tokens i run + total tokens) True := by
  have hsucc := budgetAt_succ ht
  rw [hk] at hsucc
  have hpaid : paid tokens (i + 1) = paid tokens i + (budgetAt tokens i).times := paid_succ ht (by rw [hk]; rfl)
  have hworth : ∀ run, worth tokens (i + 1) run = (budgetAt tokens i).tries * worth tokens i run := by
    intro run
    rw [worth, hsucc, worth, ← Nat.mul_assoc]
    rfl
  have hsum := h.sum (budget_behindOperand_succ ht (by rw [hk]; rfl)) run
  refine hsum.mono ?_ (fun run' hpays => ?_) id
  · rintro x j run' ⟨hj, debt, hpays, hdebt, hstop⟩
    rw [hworth, hworth, hpaid] at hpays
    refine ⟨fun t' ht' hk' => ?_, by omega⟩
    obtain rfl : debt = 0 := hstop.resolve_right fun ⟨t'', ht'', hne, _⟩ => by
      cases Option.some.inj (ht'.symm.trans ht'')
      exact hne hk'
    have hsettles := hj.budget
    rw [hsucc] at hsettles
    obtain ⟨hsettles', hsum', hnodes⟩ := Budget.settles_step_rightParen hsettles
    rw [← hk', ← budgetAt_succ ht'] at hsettles' hsum' hnodes
    refine ⟨⟨Nat.lt_succ_of_lt (Nat.lt_of_succ_lt hj.lt), lt_size_of_getElem? ht', hsettles'⟩, hsum', ?_⟩
    have hmono : paid tokens (i + 1) ≤ paid tokens j := paid_mono (Nat.le_of_lt hj.lt)
    have hpaid' : paid tokens (j + 1) = paid tokens j := hnodes
    have hpush : worth tokens i (run'.push (.paren x)) = _ := worth_push rfl
    rw [hpush, hpaid']
    rcases (budgetAt tokens i).tries_cases with htries | htries <;> rw [htries] at hpays <;> omega
  · rw [hworth, hworth, hpaid] at hpays
    omega

theorem affordable_atom (i : Nat) : FactorAffordable tokens (atom enter) i := by
  intro run
  apply meets_atom
  · intro t x run' ha ht hv _
    exact affordable_leaf ht hv ha
  · intro t run' ha ht hk
    simpa only [worth_of_arena_eq ha, worth_mark] using affordable_paren h ht hk run'
  · intro run' ha
    rw [worth_of_arena_eq ha]
    exact Nat.add_le_add_left (paid_le_total tokens i) _

theorem affordable_factor (hb : (budgetAt tokens i).behindOperand = false) :
    FactorAffordable tokens (factor enter) i := by
  intro run
  apply meets_factor
  · intro t ht hk
    have hpaid : paid tokens (i + 1) = paid tokens i + (budgetAt tokens i).times := paid_succ ht (by rw [hk]; rfl)
    obtain ⟨houter, htimes, hsum, hproduct⟩ := Budget.step_sign hb
    rw [← hk, ← budgetAt_succ ht] at houter htimes hsum hproduct
    have htries : (budgetAt tokens (i + 1)).tries = (budgetAt tokens i).tries := by
      rw [Budget.tries, hsum, hproduct, Budget.tries]
    refine (h.factor (budget_behindOperand_succ ht (by rw [hk]; rfl)) run).mono ?_ ?_ id
    · rintro x j run' ⟨hj, hsum', hpays⟩
      rw [worth_of_times_eq htimes, worth_of_times_eq htimes, hpaid] at hpays
      have hs := hj.budget
      refine ⟨⟨Nat.lt_of_succ_lt hj.lt, hj.le_size, ?_⟩, hsum'.trans hsum, ?_⟩
      · exact ⟨hs.outer.trans houter, hs.times.trans htimes, hs.behindOperand⟩
      · have hpush : worth tokens i (run'.push (.negation x)) = _ := worth_push rfl
        omega
    · intro run' hpays
      rw [worth_of_times_eq htimes, worth_of_times_eq htimes, htries, hpaid] at hpays
      refine (misses_atom_of_minus ht hk run').mono (fun _ _ _ => False.elim) (fun run'' ha => ?_) False.elim
      rw [worth_of_arena_eq ha]
      omega
  · intro run' ha
    simpa only [worth_of_arena_eq ha] using affordable_atom h i run'

/-! ## Products and sums -/

/-- An operator of a product stands at the position, and cannot be read there. -/
def Blocked (tokens : Array Token) (enter : Level → Rule NodeId) (j : Nat) : Prop :=
  (∃ t o, tokens[j]? = some t ∧ t.kind.multiplicative? = some o) ∧ ∀ left, Fails tokens (productStep enter left) j

/-- The factor behind an operator of a product, which pays for the operator as well. In a sum it is tried twice. -/
theorem affordable_factor_behind (hj : Settled tokens i j) {o : Operator} (ht : tokens[j]? = some t)
    (ho : t.kind.multiplicative? = some o) (ha : run'.arena = run.arena) :
    Meets tokens (factor enter) (j + 1) run'
      (fun _ k run'' => j < k ∧ Settled tokens i k ∧ (budgetAt tokens k).inSum = (budgetAt tokens j).inSum ∧
        worth tokens i run'' + (budgetAt tokens i).times + paid tokens j ≤ worth tokens i run + paid tokens k)
      (fun run'' => worth tokens i run'' + paid tokens j ≤ worth tokens i run + total tokens ∧
        ((budgetAt tokens j).inSum = true →
          2 * worth tokens i run'' + paid tokens j ≤ 2 * worth tokens i run + total tokens)) True := by
  have hk : t.kind = .star ∨ t.kind = .slash := Kind.eq_of_multiplicative? ho
  have hpays : t.kind.pays = true ∧ t.kind.endsOperand = false := by rcases hk with hk | hk <;> rw [hk] <;> decide
  have hpaid := paid_succ ht hpays.1
  obtain ⟨houter, htimes, hsum, hproduct⟩ := (budgetAt tokens j).step_multiplicative hk
  rw [← budgetAt_succ ht] at houter htimes hsum hproduct
  have htimes' := htimes.trans hj.budget.times
  rw [hj.budget.times] at hpaid
  refine (affordable_factor h (budget_behindOperand_succ ht hpays.2) run').mono ?_ (fun run'' hfail => ?_) id
  · rintro x k run'' ⟨hk, hsum', hread⟩
    rw [worth_of_times_eq htimes', worth_of_times_eq htimes', worth_of_arena_eq ha, hpaid] at hread
    exact ⟨Nat.lt_of_succ_lt hk.lt, hj.operator houter htimes hk, hsum'.trans hsum, by omega⟩
  · have honce := worth_le_of_tries hfail
    rw [worth_of_times_eq htimes', worth_of_times_eq htimes', worth_of_arena_eq ha] at hfail honce
    refine ⟨by omega, fun hin => ?_⟩
    have htries : (budgetAt tokens (j + 1)).tries = 2 := by simp [Budget.tries, hsum, hproduct, hin]
    rw [htries] at hfail
    omega

/-- An operator of a product with a factor behind it. -/
theorem affordable_productStep (hj : Settled tokens i j) {o : Operator} (ht : tokens[j]? = some t)
    (ho : t.kind.multiplicative? = some o) (left : NodeId) (ha : run'.arena = run.arena) :
    Meets tokens (productStep enter left) j run'
      (fun _ k run'' => j < k ∧ Settled tokens i k ∧ (budgetAt tokens k).inSum = (budgetAt tokens j).inSum ∧
        worth tokens i run'' + paid tokens j ≤ worth tokens i run + paid tokens k)
      (fun run'' => worth tokens i run'' + paid tokens j ≤ worth tokens i run + total tokens ∧
        ((budgetAt tokens j).inSum = true →
          2 * worth tokens i run'' + paid tokens j ≤ 2 * worth tokens i run + total tokens)) True := by
  refine (meets_productStep (fun _ _ hf ha => ?_) ht ho
    (fun _ ha' => affordable_factor_behind h hj ht ho (ha'.trans ha)) left).mono ?_ (fun _ => id) id
  · simpa only [worth_of_arena_eq ha] using hf
  · rintro y k run'' ⟨x, run₃, ⟨hjk, hk, hsum, hread⟩, -, hpush⟩
    refine ⟨hjk, hk, hsum, ?_⟩
    rw [worth_push hpush]
    omega

/-- A product behind an operator of a sum. Its debt is for an operator of a product that the sum will try again. -/
theorem affordable_product (hblind : Blind tokens enter) (hb : (budgetAt tokens i).behindOperand = false)
    (hsum : (budgetAt tokens i).inSum = true) (run : Run) :
    Meets tokens (product enter) i run
      (fun _ j run' => Settled tokens i j ∧ (budgetAt tokens j).inSum = true ∧ ∃ debt,
        worth tokens i run' + paid tokens i ≤ worth tokens i run + paid tokens j + debt ∧
        paid tokens j + 2 * debt ≤ total tokens ∧ (debt = 0 ∨ Blocked tokens enter j))
      (fun run' => worth tokens i run' + paid tokens i ≤ worth tokens i run + total tokens) True := by
  refine Meets.bind ((affordable_factor h hb run).mono ?_ (fun run' hfail => worth_le_of_tries hfail) id)
  rintro x j run₁ ⟨hj, hsum', hpays⟩
  refine Meets.iterate (fun _ j run' => Settled tokens i j ∧ (budgetAt tokens j).inSum = true ∧
    worth tokens i run' + paid tokens i ≤ worth tokens i run + paid tokens j) ?_ ⟨hj, hsum'.trans hsum, hpays⟩
  rintro x j run₁ ⟨hj, hsum', hpays⟩
  have htotal := paid_le_total tokens j
  by_cases hmul : NoMultiplicative tokens j
  · refine (misses_productStep hmul x run₁).mono (fun _ _ _ => False.elim) (fun run₂ ha => ?_) False.elim
    refine ⟨hj, hsum', 0, ?_, by omega, .inl rfl⟩
    rw [worth_of_arena_eq ha]
    omega
  · obtain ⟨t, o, ht, ho⟩ := not_noMultiplicative_iff.mp hmul
    refine Meets.remember ((affordable_productStep h hj ht ho x rfl).mono ?_ ?_ id)
    · rintro y k run₂ ⟨hjk, hk, hsum'', hread⟩ -
      exact ⟨hjk, hk.le_size, hk, hsum''.trans hsum', by omega⟩
    · rintro run₂ ⟨-, htwice⟩ hfail
      have htwice := htwice hsum'
      refine ⟨hj, hsum', worth tokens i run₂ - worth tokens i run₁, by omega, by omega, .inr ⟨⟨t, o, ht, ho⟩, ?_⟩⟩
      exact productStep_fails hblind hfail

/-- The product behind an operator of a sum, which pays for the operator as well. -/
theorem affordable_product_behind (hblind : Blind tokens enter) (hj : Settled tokens i j) {o : Operator}
    (ht : tokens[j]? = some t) (ho : t.kind.additive? = some o) (ha : run'.arena = run.arena) :
    Meets tokens (product enter) (j + 1) run'
      (fun _ k run'' => j < k ∧ Settled tokens i k ∧ (budgetAt tokens k).inSum = true ∧ ∃ debt,
        worth tokens i run'' + (budgetAt tokens i).times + paid tokens j ≤
          worth tokens i run + paid tokens k + debt ∧
        paid tokens k + 2 * debt ≤ total tokens ∧ (debt = 0 ∨ Blocked tokens enter k))
      (fun run'' => worth tokens i run'' + paid tokens j ≤ worth tokens i run + total tokens) True := by
  have hk : t.kind = .plus ∨ t.kind = .minus := Kind.eq_of_additive? ho
  have hpays : t.kind.pays = true ∧ t.kind.endsOperand = false := by rcases hk with hk | hk <;> rw [hk] <;> decide
  have hpaid := paid_succ ht hpays.1
  obtain ⟨houter, htimes, hsum⟩ := Budget.step_additive hj.budget.behindOperand hk
  rw [← budgetAt_succ ht] at houter htimes hsum
  have htimes' := htimes.trans hj.budget.times
  rw [hj.budget.times] at hpaid
  have hb := budget_behindOperand_succ ht hpays.2
  refine (affordable_product h hblind hb hsum run').mono ?_ (fun run'' hfail => ?_) id
  · rintro x k run'' ⟨hk, hsum', debt, hread, hdebt, hblocked⟩
    rw [worth_of_times_eq htimes', worth_of_times_eq htimes', worth_of_arena_eq ha, hpaid] at hread
    exact ⟨Nat.lt_of_succ_lt hk.lt, hj.operator houter htimes hk, hsum', debt, by omega, hdebt, hblocked⟩
  · rw [worth_of_times_eq htimes', worth_of_times_eq htimes', worth_of_arena_eq ha] at hfail
    omega

theorem affordable_sum (hblind : Blind tokens enter) (hb : (budgetAt tokens i).behindOperand = false) :
    SumAffordable tokens (sum enter) i := by
  intro run
  refine Meets.bind ((affordable_factor h hb run).mono ?_ (fun run' hfail => worth_le_of_tries hfail) id)
  rintro x j run₁ ⟨hj, -, hpays⟩
  refine Meets.iterate (fun _ j run' => Settled tokens i j ∧ ∃ debt,
    worth tokens i run' + paid tokens i ≤ worth tokens i run + paid tokens j + debt ∧
    paid tokens j + 2 * debt ≤ total tokens ∧
    (debt = 0 ∨ (budgetAt tokens j).inSum = true ∧ Blocked tokens enter j)) ?_
    ⟨hj, 0, hpays, paid_le_total tokens j, .inl rfl⟩
  rintro x j run₁ ⟨hj, debt, hpays, hdebt, hblocked⟩
  by_cases hmul : NoMultiplicative tokens j
  · obtain rfl : debt = 0 := hblocked.resolve_right fun ⟨_, ⟨t, o, ht, ho⟩, _⟩ => by
      rw [hmul t ht] at ho
      cases ho
    by_cases hadd : NoAdditive tokens j
    · refine (misses_sumStep hadd hmul x run₁).mono (fun _ _ _ => False.elim) (fun run₂ ha => ?_) False.elim
      refine ⟨hj, 0, ?_, by omega, .inl rfl⟩
      rw [worth_of_arena_eq ha]
      exact hpays
    · obtain ⟨t, o, ht, ho⟩ := not_noAdditive_iff.mp hadd
      refine (meets_sumStep_of_additive (fun _ _ hf ha => ?_) ht ho
        (fun _ ha => affordable_product_behind h hblind hj ht ho ha) x).mono ?_ ?_ id
      · rwa [worth_of_arena_eq ha]
      · rintro y k run₂ ⟨z, run₃, ⟨hjk, hk, hsum, debt, hread, hdebt, hblocked⟩, -, hpush⟩
        refine ⟨hjk, hk.le_size, hk, debt, ?_, hdebt, hblocked.imp_right fun hblocked => ⟨hsum, hblocked⟩⟩
        rw [worth_push hpush]
        omega
      · intro run₂ hfail
        refine ⟨hj, worth tokens i run₂ - worth tokens i run₁, by omega, by omega, .inr ⟨t, ht, ?_⟩⟩
        rcases Kind.eq_of_additive? ho with hk | hk <;> rw [hk] <;> decide
  · obtain ⟨t, o, ht, ho⟩ := not_noMultiplicative_iff.mp hmul
    have hstop : t.kind ≠ .rightParen ∧ t.kind ≠ .semicolon := by
      rcases Kind.eq_of_multiplicative? ho with hk | hk <;> rw [hk] <;> decide
    refine meets_sumStep_of_productStep ht ho fun run₂ ha => Meets.remember ?_
    refine (affordable_productStep h hj ht ho x ha).mono ?_ ?_ id
    · rintro y k run₃ ⟨hjk, hk, hsum, hread⟩ hmatch
      -- an operator that is owed for does not match
      obtain rfl : debt = 0 := hblocked.resolve_right fun ⟨_, _, hfails⟩ => by
        have := hfails x run₂
        rw [hmatch] at this
        cases this
      exact ⟨hjk, hk.le_size, hk, 0, by omega, paid_le_total tokens k, .inl rfl⟩
    · rintro run₃ ⟨honce, htwice⟩ -
      refine ⟨hj, debt + (worth tokens i run₃ - worth tokens i run₁), by omega, ?_, .inr ⟨t, ht, hstop⟩⟩
      rcases hblocked with rfl | ⟨hsum, -⟩
      · omega
      · have htwice := htwice hsum
        omega

end Enter

end Levels

/-! ## Programs -/

section Program

variable {tokens : Array Token} {n i : Nat}

theorem entersAffordable_inner (tokens : Array Token) (n : Nat) : EntersAffordable tokens (inner n) := by
  induction n with
  | zero => exact ⟨fun _ _ => meets_exhausted trivial, fun _ _ => meets_exhausted trivial⟩
  | succ n ih =>
    constructor
    · intro i hb
      rw [inner, expression_eq]
      exact affordable_sum ih (inner_blind tokens n) hb
    · intro i hb
      rw [inner, expression_eq]
      exact affordable_factor ih hb

theorem affordable_expression (hb : (budgetAt tokens i).behindOperand = false) (n : Nat) :
    SumAffordable tokens (expression n .sum) i := by
  rw [expression_eq]
  exact affordable_sum (entersAffordable_inner tokens n) (inner_blind tokens n) hb

/-- A name with '=' behind it is all that an expression can read there. -/
theorem builds_target {t t' : Token} {x : NodeId} (ht : tokens[i]? = some t) (hc : Class.ofKind t.kind = .identifier)
    (hp : t.payload = some x) (ht' : tokens[i + 1]? = some t') (hk' : t'.kind = .assign) (hn : tokens.size ≤ n) :
    Builds tokens (expression n .sum) i (.leaf x) (i + 1) := by
  have he : Derives .expr [t] (.leaf x) :=
    .ofTerm (.ofFactor (.ofAtom (.leaf ((Class.isValued_iff _).mpr (.inl hc)) hp)))
  have hsize := lt_size_of_getElem? ht
  have hadd : NoAdditive tokens (i + 1) := noAdditive_of_getElem? ht' (by rw [hk']; rfl)
  have hmul : NoMultiplicative tokens (i + 1) := noMultiplicative_of_getElem? ht' (by rw [hk']; rfl)
  exact builds_expression he (by simp only [List.length_singleton]; omega) (reads_token ht) hadd hmul

/-- An assignment that fails is read as an expression. That ends at the '=', and the nodes that were made for the value
are owed. -/
theorem affordable_statement (hb : (budgetAt tokens i).behindOperand = false) (hn : tokens.size ≤ n) :
    SumAffordable tokens (statement (expression n .sum)) i := by
  intro run
  apply meets_statement
  · intro t x t' ht hk hp ht' hk'
    obtain ⟨hsettles, -, hpaid⟩ := (budgetAt tokens i).settles_step_of_isValued (k := t.kind) (by rw [hk]; rfl)
    rw [← budgetAt_succ ht] at hsettles hpaid
    have hpaid : paid tokens (i + 1) = paid tokens i := hpaid
    have htarget : Settled tokens i (i + 1) := ⟨Nat.lt_succ_self i, lt_size_of_getElem? ht, hsettles⟩
    obtain ⟨houter, htimes⟩ := (budgetAt tokens (i + 1)).step_separator (.inl hk')
    rw [← budgetAt_succ ht'] at houter htimes
    have hpaid' := paid_succ ht' (by rw [hk']; rfl)
    have htimes' := htimes.trans hsettles.times
    rw [hsettles.times, hpaid] at hpaid'
    have hvalue := affordable_expression (budget_behindOperand_succ ht' (by rw [hk']; rfl)) n run
    refine hvalue.mono ?_ ?_ id
    · rintro y j run' ⟨hj, debt, hpays, hdebt, hstop⟩
      rw [worth_of_times_eq htimes', worth_of_times_eq htimes', hpaid'] at hpays
      refine ⟨htarget.operator houter htimes hj, debt, ?_, hdebt, hstop⟩
      have hpush : worth tokens i (run'.push (.assignment x y)) = _ := worth_push rfl
      omega
    · intro run₁ hfail
      rw [worth_of_times_eq htimes', worth_of_times_eq htimes', hpaid'] at hfail
      refine (builds_target ht (by rw [hk]; rfl) hp ht' hk' hn run₁).meets fun run₂ ha => ?_
      have hworth : worth tokens i run₂ = worth tokens i run₁ := worth_of_arena_eq ha
      refine ⟨htarget, worth tokens i run₁ - worth tokens i run, by omega, ?_, .inr ⟨t', ht', ?_⟩⟩
      · have := paid_le_total tokens (i + 1)
        omega
      · rw [hk']
        decide
  · intro run' ha
    simpa only [worth_of_arena_eq ha] using affordable_expression hb n run'

/-- The node that statements need beside their own. -/
def sequenceNodes (items : List NodeId) : Nat :=
  min 1 (items.length - 1)

/-- What statements have made up to a position. The node of the sequence is not made yet. -/
def StatementsSoFar (tokens : Array Token) (run : Run) (items : List NodeId) (j : Nat) (run' : Run) : Prop :=
  Settled tokens 0 j ∧ items ≠ [] ∧ ∃ debt,
    worth tokens 0 run' + sequenceNodes items ≤ worth tokens 0 run + paid tokens j + debt ∧
    paid tokens j + debt ≤ total tokens ∧
    (debt = 0 ∨ ∃ t, tokens[j]? = some t ∧ t.kind ≠ .rightParen ∧ t.kind ≠ .semicolon)

/-- One more statement pays for its nodes and for the sequence with the semicolon before it. -/
theorem affordable_nextStatement (hn : tokens.size ≤ n) {run run₁ : Run} {items : List NodeId} {j : Nat} {t : Token}
    (h : StatementsSoFar tokens run items j run₁) (ht : tokens[j]? = some t) (hk : t.kind = .semicolon) :
    Meets tokens (statement (expression n .sum)) (j + 1) run₁
      (fun x k run₂ => j < k ∧ k ≤ tokens.size ∧ StatementsSoFar tokens run (x :: items) k run₂)
      (fun run₂ => worth tokens 0 run₂ + sequenceNodes items ≤ worth tokens 0 run + total tokens) True := by
  obtain ⟨hj, hne, debt, hpays, hdebt, hstop⟩ := h
  obtain rfl : debt = 0 := hstop.resolve_right fun ⟨t', ht', _, hne'⟩ => by
    cases Option.some.inj (ht.symm.trans ht')
    exact hne' hk
  obtain ⟨houter, htimes⟩ := (budgetAt tokens j).step_separator (.inr hk)
  rw [← budgetAt_succ ht] at houter htimes
  have htimes' := htimes.trans hj.budget.times
  have hpaid : paid tokens (j + 1) = paid tokens j + 1 := by
    rw [paid_succ ht (by rw [hk]; rfl), hj.budget.times]
    rfl
  have hitem := affordable_statement (budget_behindOperand_succ ht (by rw [hk]; rfl)) hn run₁
  refine hitem.mono ?_ (fun run₂ hfail => ?_) id
  · rintro y k run₂ ⟨hk, debt, hread, hdebt, hstop⟩
    rw [worth_of_times_eq htimes', worth_of_times_eq htimes', hpaid] at hread
    have hseq : sequenceNodes (y :: items) ≤ 1 := Nat.min_le_left _ _
    refine ⟨Nat.lt_of_succ_lt hk.lt, hk.le_size, hj.operator houter htimes hk, by simp, debt, ?_, hdebt, hstop⟩
    omega
  · rw [worth_of_times_eq htimes', worth_of_times_eq htimes', hpaid] at hfail
    omega

theorem affordable_statements (hn : tokens.size ≤ n) (run : Run) :
    Meets tokens (statements (expression n .sum)) 0 run
      (fun items _ run' => items ≠ [] ∧
        worth tokens 0 run' + sequenceNodes items ≤ worth tokens 0 run + total tokens)
      (fun run' => worth tokens 0 run' ≤ worth tokens 0 run + total tokens) True := by
  have hpaid0 : paid tokens 0 = 0 := rfl
  have hreverse : ∀ items : List NodeId, sequenceNodes items.reverse = sequenceNodes items := fun items => by
    simp [sequenceNodes]
  apply meets_statements (StatementsSoFar tokens run)
  · refine (affordable_statement rfl hn run).mono ?_ (fun run' hfail => by omega) id
    rintro x j run₁ ⟨hj, debt, hpays, hdebt, hstop⟩
    exact ⟨hj, by simp, debt, by simpa [sequenceNodes, hpaid0] using hpays, hdebt, hstop⟩
  · intro items j run₁ t h ht hk
    refine (affordable_nextStatement hn h ht hk).mono (fun _ _ _ => id) (fun run₂ hle => ?_) id
    exact ⟨by simpa using h.2.1, by rwa [hreverse]⟩
  · rintro items j run₁ run₂ ⟨-, hne, debt, hpays, hdebt, -⟩ ha
    refine ⟨by simpa using hne, ?_⟩
    rw [hreverse, worth_of_arena_eq ha]
    omega

theorem affordable_program (hn : tokens.size ≤ n) (run : Run) :
    Meets tokens (program (expression n .sum)) 0 run
      (fun _ _ run' => run'.arena.size ≤ run.arena.size + total tokens)
      (fun run' => run'.arena.size ≤ run.arena.size + total tokens) True := by
  have hworth : ∀ run, worth tokens 0 run = run.arena.size := fun run => Nat.one_mul _
  apply meets_program
  refine (affordable_statements hn run).mono ?_ (fun run' hfail => ?_) id
  · rintro items j run₁ ⟨hne, hle⟩ k run₂ ha -
    rw [hworth, hworth, ← ha] at hle
    refine ⟨fun _ => by omega, fun _ => ⟨fun _ _ => by omega, fun hlength => ?_⟩⟩
    have hpos := List.length_pos_iff.mpr hne
    have hsize : (run₂.push (.sequence items)).arena.size = run₂.arena.size + 1 := Arena.size_push _ _
    unfold sequenceNodes at hle
    omega
  · rwa [hworth, hworth] at hfail

end Program

/-- A run makes no more nodes than all tokens can pay for. -/
theorem size_run_le (tokens : Array Token) (a : Arena) (probe : Probe) :
    (run tokens a probe).2.arena.size ≤ a.size + total tokens := by
  have h := affordable_program (Nat.le_refl tokens.size) ⟨a, probe⟩
  have hne := run_ne_exhausted tokens a probe
  unfold run at hne ⊢
  unfold Meets at h
  split at h <;> rename_i heq <;> rw [heq] at hne ⊢
  · exact h
  · exact h
  · exact absurd rfl hne

/-- Reading tokens takes two runs at most. -/
theorem size_read_le (tokens : Array Token) (a : Arena) : (read tokens a).2.size ≤ a.size + 2 * total tokens := by
  have hfirst := size_run_le tokens a (.locate 0)
  unfold read
  split
  · rename_i heq
    rw [heq] at hfirst
    exact Nat.le_trans hfirst (by omega)
  · rename_i first _ heq
    rw [heq] at hfirst
    have hfirst : first.arena.size ≤ a.size + total tokens := hfirst
    have hsecond := size_run_le tokens first.arena (.explain first.probe.position [])
    exact Nat.le_trans hsecond (by omega)

theorem total_eq (tokens : Array Token) : total tokens = (Budget.start.after (tokens.toList.map Token.kind)).nodes := by
  rw [total, paid, budgetAt, kindsBefore_of_size_le (Nat.le_refl _)]

end Formula.Grammar
