import Formula.Proofs.Grammar.Recognition
import Formula.Proofs.Nesting

/-!
# The nesting of tokens bounds the grammar

Where the tokens nest nowhere deeper than the limit, the grammar never enters a parenthesis or a sign inside more than
that many others, whether the tokens are a program or not (`program_ne_exhausted`).

The nesting is followed through the tokens once, while the grammar comes to a token in several ways. It is enough that
a rule starts where no operand ends just before: there a minus is a sign for both. A rule that matches has read an
operand, and leaves the nesting as it was where the rule started (`Operand`); a rule that fails goes back.
-/

namespace Formula.Grammar

open Rule hiding pure bind

variable {tokens : Array Token} {limit n i j : Nat} {t : Token}

/-- An operand stands between the positions. -/
structure Operand (tokens : Array Token) (i j : Nat) : Prop where
  lt : i < j
  le_size : j ≤ tokens.size
  settles : (nestingAt tokens i).Settles (nestingAt tokens j)

/-- An operand may start at the position, and its level leaves as many levels as given up to the limit. -/
structure Starts (tokens : Array Token) (limit n i : Nat) : Prop where
  behindOperand : (nestingAt tokens i).behindOperand = false
  limit_le : limit ≤ (nestingAt tokens i).level + n

/-- The rule is not exhausted at the position, and reads an operand if it matches. -/
def Confined (tokens : Array Token) (r : Rule NodeId) (i : Nat) : Prop :=
  ∀ run, Meets tokens r i run (fun _ j _ => Operand tokens i j) (fun _ => True) False

/-- The rule is not exhausted behind an operand, and makes it a longer one if it matches. -/
def ConfinedStep (tokens : Array Token) (r : Rule NodeId) (i j : Nat) : Prop :=
  ∀ run, Meets tokens r j run (fun _ k _ => j < k ∧ Operand tokens i k) (fun _ => True) False

/-- A token that no operand ends in leaves a place where one may start. -/
theorem behindOperand_succ (ht : tokens[i]? = some t) (hk : t.kind.endsOperand = false) :
    (nestingAt tokens (i + 1)).behindOperand = false := by
  rw [nestingAt_succ ht, Nesting.behindOperand_step, hk]

section Steps

variable {r r' first : Rule NodeId} {step : NodeId → Rule NodeId}

theorem ConfinedStep.orElse (h : ConfinedStep tokens r i j) (h' : ConfinedStep tokens r' i j) :
    ConfinedStep tokens (r <|> r') i j :=
  fun run => Meets.orElse ((h run).mono (fun _ _ _ hq => hq) (fun run' _ => h' run') id)

theorem Confined.iterate (hfirst : Confined tokens first i)
    (hstep : ∀ j, Operand tokens i j → ∀ left, ConfinedStep tokens (step left) i j) :
    Confined tokens (first >>= iterate step) i := by
  intro run
  refine Meets.bind ((hfirst run).mono (fun x j run' hj => ?_) (fun _ => id) id)
  refine Meets.iterate (fun _ j _ => Operand tokens i j) (fun x j run' hj => ?_) hj
  exact (hstep j hj x run').mono (fun _ _ _ hk => ⟨hk.1, hk.2.le_size, hk.2⟩) (fun _ _ => hj) id

/-- An operator behind an operand, with a rule for its right operand. -/
theorem Starts.confinedStep_operation (hi : Starts tokens limit n i) (hj : Operand tokens i j) {c : Class}
    {o : Operator} (hc : c = .plus ∨ c = .minus ∨ c = .star ∨ c = .slash)
    (h : ∀ {k}, Starts tokens limit n k → Confined tokens r k) (left : NodeId) :
    ConfinedStep tokens (operation c o r left) i j := by
  intro run
  refine meets_operation (fun t ht htc => ?_) fun _ => trivial
  have hkind : t.kind ≠ .leftParen ∧ t.kind ≠ .rightParen ∧ t.kind.endsOperand = false := by
    rcases hc with rfl | rfl | rfl | rfl <;> rw [Class.eq_kind htc (by decide)] <;> decide
  obtain ⟨houter, hlevel⟩ := (nestingAt tokens j).step_of_ne_paren hkind.1 hkind.2.1
  rw [← nestingAt_succ ht] at houter hlevel
  have hstart : Starts tokens limit n (j + 1) := by
    refine ⟨behindOperand_succ ht hkind.2.2, ?_⟩
    rw [hlevel, hj.settles.level]
    exact hi.limit_le
  refine (h hstart run).mono (fun x k run' hk => ?_) (fun _ => id) id
  have hjk : j < k := Nat.lt_of_succ_lt hk.lt
  refine ⟨hjk, Nat.lt_trans hj.lt hjk, hk.le_size, ?_⟩
  have hs := hk.settles
  exact ⟨(hs.outer.trans houter).trans hj.settles.outer, (hs.level.trans hlevel).trans hj.settles.level, hs.signs,
    hs.behindOperand⟩

end Steps

section Levels

variable {enter : Level → Rule NodeId}

/-- The rules below a parenthesis and below a sign are confined where they are entered. -/
structure EntersConfined (tokens : Array Token) (limit n : Nat) (enter : Level → Rule NodeId) : Prop where
  sum {i : Nat} : (nestingAt tokens i).behindOperand = false → limit < (nestingAt tokens i).level + n →
    Confined tokens (enter .sum) i
  factor {i : Nat} : (nestingAt tokens i).behindOperand = false → limit < (nestingAt tokens i).depth + n →
    Confined tokens (enter .factor) i

variable (h : EntersConfined tokens limit n enter)
include h

theorem confined_atom (hi : limit ≤ (nestingAt tokens i).depth + n) : Confined tokens (atom enter) i := by
  intro run
  apply meets_atom
  · intro t _ _ _ ht hv _
    refine ⟨Nat.lt_succ_self i, lt_size_of_getElem? ht, ?_⟩
    rw [nestingAt_succ ht]
    exact Nesting.settles_step_of_isValued _ hv
  · intro t run' _ ht hk
    have hsucc := nestingAt_succ ht
    rw [hk] at hsucc
    have hlevel : (nestingAt tokens (i + 1)).level = (nestingAt tokens i).depth + 1 := by rw [hsucc]; rfl
    refine (h.sum (behindOperand_succ ht (by rw [hk]; rfl)) (by omega) run').mono ?_ (fun _ => id) id
    intro x j run₁ hj
    refine ⟨fun t' ht' hk' => ?_, trivial⟩
    have hs := hj.settles
    rw [hsucc] at hs
    refine ⟨Nat.lt_succ_of_lt (Nat.lt_of_succ_lt hj.lt), lt_size_of_getElem? ht', ?_⟩
    rw [nestingAt_succ ht', hk']
    exact Nesting.settles_step_rightParen hs
  · exact fun _ _ => trivial

theorem confined_factor (hb : (nestingAt tokens i).behindOperand = false)
    (hi : limit ≤ (nestingAt tokens i).depth + n) : Confined tokens (factor enter) i := by
  intro run
  apply meets_factor
  · intro t ht hk
    have hsucc := nestingAt_succ ht
    rw [hk] at hsucc
    have hdepth : (nestingAt tokens (i + 1)).depth = (nestingAt tokens i).depth + 1 := by
      rw [hsucc, Nesting.depth_step_minus hb]
    refine (h.factor (behindOperand_succ ht (by rw [hk]; rfl)) (by omega) run).mono ?_
      (fun run' _ => confined_atom h hi run') id
    intro x j run' hj
    have hs := hj.settles
    rw [hsucc] at hs
    obtain ⟨houter, hlevel⟩ := (nestingAt tokens i).step_of_ne_paren (k := .minus) (by decide) (by decide)
    refine ⟨Nat.lt_of_succ_lt hj.lt, hj.le_size, ?_⟩
    exact ⟨hs.outer.trans houter, hs.level.trans hlevel, hs.signs, hs.behindOperand⟩
  · exact fun run' _ => confined_atom h hi run'

theorem Starts.confined_factor (hi : Starts tokens limit n i) : Confined tokens (factor enter) i := by
  refine Grammar.confined_factor h hi.behindOperand (Nat.le_trans hi.limit_le ?_)
  exact Nat.add_le_add_right (Nesting.level_le_depth _) n

theorem Starts.confinedStep_product (hi : Starts tokens limit n i) (hj : Operand tokens i j) (left : NodeId) :
    ConfinedStep tokens (productStep enter left) i j :=
  (hi.confinedStep_operation hj (by simp) (Starts.confined_factor h) left).orElse
    (hi.confinedStep_operation hj (by simp) (Starts.confined_factor h) left)

theorem Starts.confined_product (hi : Starts tokens limit n i) : Confined tokens (product enter) i :=
  (hi.confined_factor h).iterate fun _ hj => hi.confinedStep_product h hj

theorem Starts.confined_sum (hi : Starts tokens limit n i) : Confined tokens (sum enter) i :=
  (hi.confined_factor h).iterate fun _ hj left =>
    (hi.confinedStep_operation hj (by simp) (Starts.confined_product h) left).orElse
      ((hi.confinedStep_operation hj (by simp) (Starts.confined_product h) left).orElse
        (hi.confinedStep_product h hj left))

end Levels

section Program

variable (hdepth : ∀ i, (nestingAt tokens i).depth ≤ limit)
include hdepth

theorem entersConfined_inner (n : Nat) : EntersConfined tokens limit n (inner n) := by
  induction n with
  | zero =>
    constructor
    · intro i _ hi
      have := Nesting.level_le_depth (nestingAt tokens i)
      have := hdepth i
      omega
    · intro i _ hi
      have := hdepth i
      omega
  | succ n ih =>
    constructor
    · intro i hb hi
      rw [inner, expression_eq]
      exact Starts.confined_sum ih ⟨hb, by omega⟩
    · intro i hb hi
      rw [inner, expression_eq]
      exact confined_factor ih hb (by omega)

/-- At the outermost level the limit leaves as many levels as it says. -/
theorem confined_expression (hb : (nestingAt tokens i).behindOperand = false) :
    Confined tokens (expression limit .sum) i := by
  rw [expression_eq]
  exact Starts.confined_sum (entersConfined_inner hdepth limit) ⟨hb, Nat.le_add_left _ _⟩

theorem meets_statement_confined (hb : (nestingAt tokens i).behindOperand = false) (run : Run) :
    Meets tokens (statement (expression limit .sum)) i run (fun _ j _ => i < j ∧ j ≤ tokens.size) (fun _ => True)
      False := by
  have hexpr : ∀ run, Meets tokens (expression limit .sum) i run (fun _ j _ => i < j ∧ j ≤ tokens.size)
      (fun _ => True) False := fun run =>
    (confined_expression hdepth hb run).mono (fun _ _ _ hj => ⟨hj.lt, hj.le_size⟩) (fun _ => id) id
  apply meets_statement
  · intro t target t' ht hk hp ht' hk'
    have hb' : (nestingAt tokens (i + 1 + 1)).behindOperand = false := behindOperand_succ ht' (by rw [hk']; rfl)
    refine (confined_expression hdepth hb' run).mono (fun x j run' hj => ?_) (fun run' _ => hexpr run') id
    have hij := hj.lt
    exact ⟨by omega, hj.le_size⟩
  · exact fun run' _ => hexpr run'

theorem meets_statements_confined (run : Run) :
    Meets tokens (statements (expression limit .sum)) 0 run (fun _ _ _ => True) (fun _ => True) False := by
  apply meets_statements (fun _ _ _ => True)
  · exact (meets_statement_confined hdepth rfl run).mono (fun _ _ _ _ => trivial) (fun _ => id) id
  · intro items j run' t _ ht hk
    have hb : (nestingAt tokens (j + 1)).behindOperand = false := behindOperand_succ ht (by rw [hk]; rfl)
    refine (meets_statement_confined hdepth hb run').mono ?_ (fun _ _ => trivial) id
    rintro x k run₁ ⟨hjk, hk⟩
    exact ⟨Nat.lt_of_succ_lt hjk, hk, trivial⟩
  · exact fun _ _ _ _ _ _ => trivial

theorem meets_program_confined (run : Run) :
    Meets tokens (program (expression limit .sum)) 0 run (fun _ _ _ => True) (fun _ => True) False := by
  apply meets_program
  refine (meets_statements_confined hdepth run).mono ?_ (fun _ => id) id
  intro items j run' _ k run₁ _ _
  exact ⟨fun _ => trivial, fun _ => ⟨fun _ _ => trivial, fun _ => trivial⟩⟩

/-- The limit is never exhausted. -/
theorem program_ne_exhausted (run : Run) : (program (expression limit .sum) tokens 0 run).1 ≠ .exhausted :=
  (meets_program_confined hdepth run).ne_exhausted

end Program

/-- The bound of a run is never exhausted: tokens nest no deeper than there are tokens. -/
theorem run_ne_exhausted (tokens : Array Token) (a : Arena) (probe : Probe) : (run tokens a probe).1 ≠ .exhausted :=
  program_ne_exhausted (depth_nestingAt_le_size tokens) _

/-- A run is the same within the limit. -/
theorem run_eq_program (hdepth : ∀ i, (nestingAt tokens i).depth ≤ limit) (a : Arena) (probe : Probe) :
    run tokens a probe = program (expression limit .sum) tokens 0 ⟨a, probe⟩ := by
  have hmin : ∀ i, (nestingAt tokens i).depth ≤ min limit tokens.size := fun i =>
    Nat.le_min.mpr ⟨hdepth i, depth_nestingAt_le_size tokens i⟩
  have hne := program_ne_exhausted hmin ⟨a, probe⟩
  rw [run, program_eq_of_le (Nat.min_le_right _ _) hne, program_eq_of_le (Nat.min_le_left _ _) hne]

end Formula.Grammar
