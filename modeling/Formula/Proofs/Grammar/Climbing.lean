import Formula.Proofs.Grammar.Depth

/-!
# Precedence climbing

An expression may be read by precedence climbing: an activation reads a factor and then, from left to right, the
operators that its level admits, and each right operand is read by an activation of the next closer level. `climb n`
is this with at most `n` activations open at a time. A level of nesting has at most three of them open, one for each
level of expressions, so nesting that is bounded by the limit bounds them too (`climbing_within_limit`).
-/

namespace Formula.Grammar

open Rule hiding pure bind

section

variable (activate : Level → Rule NodeId)

/-- The operators of a product behind a left operand, with an activation for the right one. -/
def climbProduct (left : NodeId) : Rule NodeId :=
  operation .star .mul (activate .factor) left <|> operation .slash .div (activate .factor) left

/-- The operators of a sum and those of a product behind a left operand. -/
def climbSum (left : NodeId) : Rule NodeId :=
  operation .plus .add (activate .product) left <|> operation .minus .sub (activate .product) left <|>
    climbProduct activate left

end

/-- The activation for a level, inside which at most one less than the bound is open. -/
def climb : Nat → Level → Rule NodeId
  | 0, _ => Rule.exhausted
  | n + 1, .factor => factor (climb n)
  | n + 1, .product => do
    let first ← factor (climb n)
    Rule.iterate (climbProduct (climb n)) first
  | n + 1, .sum => do
    let first ← factor (climb n)
    Rule.iterate (climbSum (climb n)) first

section Simulation

variable {tokens tokens' : Array Token} {S : Run → Run → Prop} {V : NodeId → NodeId → Prop}
  (hsim : Simulation tokens tokens' S V)
include hsim

section Levels

variable {enter : Level → Rule NodeId} {k n : Nat}
  (henter : ∀ l n, k ≤ n → Simulates tokens tokens' S V (enter l) (climb n l)) (hn : k ≤ n)
include henter hn

theorem simulates_climb_factor : Simulates tokens tokens' S V (factor enter) (climb (n + 1) .factor) :=
  simulates_factor hsim fun l => henter l n hn

theorem simulates_climbProduct {left left' : NodeId} (hl : V left left') :
    Simulates tokens tokens' S V (productStep enter left) (climbProduct (climb (n + 1)) left') :=
  (simulates_operation hsim _ _ (simulates_climb_factor hsim henter hn) hl).orElse
    (simulates_operation hsim _ _ (simulates_climb_factor hsim henter hn) hl)

theorem simulates_climb_product : Simulates tokens tokens' S V (product enter) (climb (n + 2) .product) :=
  (simulates_factor hsim fun l => henter l (n + 1) (Nat.le_succ_of_le hn)).bind fun _ _ hv =>
    Simulates.iterate hsim.size_eq (fun _ _ hv => simulates_climbProduct hsim henter hn hv) hv

theorem simulates_climb_sum : Simulates tokens tokens' S V (sum enter) (climb (n + 3) .sum) := by
  refine (simulates_factor hsim fun l => henter l (n + 2) (by omega)).bind fun _ _ hv => ?_
  refine Simulates.iterate hsim.size_eq (fun _ _ hv => ?_) hv
  have hproduct := simulates_climb_product hsim henter hn
  refine (simulates_operation hsim _ _ hproduct hv).orElse ((simulates_operation hsim _ _ hproduct hv).orElse ?_)
  exact simulates_climbProduct hsim henter (Nat.le_succ_of_le hn) hv

end Levels

/-- Three activations for every level of nesting are enough. -/
theorem simulates_climb_inner (d : Nat) (l : Level) (n : Nat) (hn : 3 * d ≤ n) :
    Simulates tokens tokens' S V (inner d l) (climb n l) := by
  induction d generalizing l n with
  | zero => exact simulates_exhausted
  | succ d ih =>
    obtain ⟨n, rfl⟩ : ∃ m, n = m + 3 := ⟨n - 3, by omega⟩
    rw [inner, expression_eq]
    cases l with
    | sum => exact simulates_climb_sum hsim ih (by omega)
    | product => exact simulates_climb_product hsim ih (by omega)
    | factor => exact simulates_climb_factor hsim ih (by omega)

theorem simulates_climb (d : Nat) : Simulates tokens tokens' S V (expression d .sum) (climb (3 * (d + 1)) .sum) := by
  rw [expression_eq]
  exact simulates_climb_sum hsim (fun l n hn => simulates_climb_inner hsim d l n hn) (Nat.le_refl _)

end Simulation

/-- Tokens that nest nowhere deeper than the limit never make the grammar nest deeper, whether they are a program or
not, and whatever the arena and the probe are, so in both runs: the limit is not exhausted and no larger bound changes
anything. Nor do three activations of precedence climbing for the outermost level and each level up to the limit. -/
theorem climbing_within_limit {limit : Nat} {l : List (Token × Span)}
    (h : Nesting.start.firstTooDeep limit (l.map fun (t, span) => (t.kind, span)) = none) (a : Arena) (probe : Probe) :
    let tokens := (l.map Prod.fst).toArray
    (program (expression limit .sum) tokens 0 ⟨a, probe⟩).1 ≠ .exhausted ∧
    (∀ n, limit ≤ n → program (expression n .sum) tokens 0 ⟨a, probe⟩ =
      program (expression limit .sum) tokens 0 ⟨a, probe⟩) ∧
    run tokens a probe = program (expression limit .sum) tokens 0 ⟨a, probe⟩ ∧
    (program (climb (3 * (limit + 1)) .sum) tokens 0 ⟨a, probe⟩).1 ≠ .exhausted ∧
    run tokens a probe = program (climb (3 * (limit + 1)) .sum) tokens 0 ⟨a, probe⟩ := by
  intro tokens
  have hdepth : ∀ i, (nestingAt tokens i).depth ≤ limit := depth_nestingAt_le h
  have hne := program_ne_exhausted hdepth ⟨a, probe⟩
  have hrun := run_eq_program hdepth a probe
  have hclimb : program (climb (3 * (limit + 1)) .sum) tokens 0 ⟨a, probe⟩ =
      program (expression limit .sum) tokens 0 ⟨a, probe⟩ :=
    (simulates_program (simulation_eq tokens) (simulates_climb (simulation_eq tokens) limit)).eq_of_ne_exhausted hne
  refine ⟨hne, fun n hn => program_eq_of_le hn hne, hrun, ?_, ?_⟩
  · rw [hclimb]
    exact hne
  · rw [hclimb, hrun]

/-- Two levels of nesting, in tokens that are no program: a stray parenthesis, a sign before another that is not
closed, and a name without a leaf. -/
theorem climbing_within_limit_stray :
    (program (climb 9 .sum) #[⟨.rightParen, none⟩, ⟨.plus, none⟩, ⟨.minus, none⟩, ⟨.leftParen, none⟩,
      ⟨.identifier, none⟩] 0 ⟨.empty 0, .locate 0⟩).1 ≠ .exhausted := by
  have h : Nesting.start.firstTooDeep 2 [(.rightParen, Span.origin), (.plus, .origin), (.minus, .origin),
    (.leftParen, .origin), (.identifier, .origin)] = none := by decide
  exact (climbing_within_limit (l := [(⟨.rightParen, none⟩, .origin), (⟨.plus, none⟩, .origin),
    (⟨.minus, none⟩, .origin), (⟨.leftParen, none⟩, .origin), (⟨.identifier, none⟩, .origin)]) h (.empty 0)
    (.locate 0)).2.2.2.1

end Formula.Grammar
