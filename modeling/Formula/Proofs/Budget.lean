import Mathlib.Algebra.Group.Nat.Defs
import Mathlib.Data.List.Forall2
import Formula.Proofs.Nesting

/-!
# A budget of nodes

The grammar makes nodes while it tries, and what it gives up and tries again is made again. An operand of a product
that cannot be read to its end is tried once more if the product stands in a sum behind one of its operators: once as
an operand of that product, and once as an operand of the sum. So the tokens in a parenthesis there may be read twice
as often as the parenthesis. A budget follows how often that is: every token that is neither a value nor a closing
parenthesis can pay for one node each time (`nodes`). No token is read more often than two to the power of its level
(`Within`).
-/

namespace Formula

/-- What the tokens so far can pay for, and how often the next one may be read. -/
structure Budget where
  times : Nat
  /-- Whether an operator of a sum stands before, inside the same parenthesis. -/
  inSum : Bool
  /-- Whether an operator of a product stands just before, signs aside. -/
  inProduct : Bool
  /-- The values of `times` and `inSum` outside the open parentheses, the innermost first. -/
  outer : List (Nat × Bool)
  previous : Option Kind
  nodes : Nat
deriving DecidableEq, Repr

/-- Whether a token of the kind can be what a node is made for. -/
def Kind.pays : Kind → Bool
  | .rightParen => false
  | kind => !kind.isValued

namespace Budget

def start : Budget := ⟨1, false, false, [], none, 0⟩

/-- Whether an operand ends just before. -/
def behindOperand (b : Budget) : Bool :=
  b.previous.elim false Kind.endsOperand

/-- How often an operand that comes next is tried each time. -/
def tries (b : Budget) : Nat :=
  if b.inSum && b.inProduct then 2 else 1

/-- The budget after a token, apart from what the token pays for. -/
def move (b : Budget) (kind : Kind) : Budget :=
  match kind with
  | .minus => if b.behindOperand then { b with inSum := true, inProduct := false } else b
  | .plus => { b with inSum := true, inProduct := false }
  | .star | .slash => { b with inProduct := true }
  | .assign | .semicolon => { b with inSum := false, inProduct := false }
  | .leftParen =>
    { b with times := b.tries * b.times, inSum := false, inProduct := false, outer := (b.times, b.inSum) :: b.outer }
  | .rightParen =>
    let (times, inSum) := b.outer.head?.getD (1, false)
    { b with times, inSum, inProduct := false, outer := b.outer.tail }
  | .identifier | .integer | .fixed => { b with inProduct := false }

/-- The budget after a token. -/
def step (b : Budget) (kind : Kind) : Budget :=
  { b.move kind with previous := some kind, nodes := if kind.pays then b.nodes + b.times else b.nodes }

/-- The budget after more tokens of the given kinds. -/
def after (b : Budget) (kinds : List Kind) : Budget :=
  kinds.foldl step b

variable {b c d e : Budget} {n : Nesting} {k : Kind}

theorem after_concat (b : Budget) (ks : List Kind) (k : Kind) : b.after (ks ++ [k]) = (b.after ks).step k := by
  simp [after]

theorem behindOperand_step (b : Budget) (k : Kind) : (b.step k).behindOperand = k.endsOperand := by
  cases k <;> rfl

theorem nodes_step (b : Budget) (k : Kind) : (b.step k).nodes = if k.pays then b.nodes + b.times else b.nodes := rfl

theorem nodes_le_nodes_step (b : Budget) (k : Kind) : b.nodes ≤ (b.step k).nodes := by
  rw [nodes_step]
  split <;> omega

theorem tries_cases (b : Budget) : b.tries = 1 ∨ b.tries = 2 := by
  unfold tries
  split <;> simp

/-! ## Operands and operators -/

/-- The second budget is that behind an operand which started in the first. -/
structure Settles (b c : Budget) : Prop where
  outer : c.outer = b.outer
  times : c.times = b.times
  behindOperand : c.behindOperand = true

theorem settles_step_of_isValued (b : Budget) (hk : k.isValued = true) :
    Settles b (b.step k) ∧ (b.step k).inSum = b.inSum ∧ (b.step k).nodes = b.nodes := by
  cases k <;> first | exact ⟨⟨rfl, rfl, rfl⟩, rfl, rfl⟩ | cases hk

/-- A sign is read as often as the operand behind it is tried. -/
theorem step_sign (hb : b.behindOperand = false) :
    (b.step .minus).outer = b.outer ∧ (b.step .minus).times = b.times ∧ (b.step .minus).inSum = b.inSum ∧
      (b.step .minus).inProduct = b.inProduct := by
  simp [step, move, hb]

theorem step_additive (hb : b.behindOperand = true) (hk : k = .plus ∨ k = .minus) :
    (b.step k).outer = b.outer ∧ (b.step k).times = b.times ∧ (b.step k).inSum = true := by
  rcases hk with rfl | rfl <;> simp [step, move, hb]

theorem step_multiplicative (b : Budget) (hk : k = .star ∨ k = .slash) :
    (b.step k).outer = b.outer ∧ (b.step k).times = b.times ∧ (b.step k).inSum = b.inSum ∧
      (b.step k).inProduct = true := by
  rcases hk with rfl | rfl <;> exact ⟨rfl, rfl, rfl, rfl⟩

theorem step_separator (b : Budget) (hk : k = .assign ∨ k = .semicolon) :
    (b.step k).outer = b.outer ∧ (b.step k).times = b.times := by
  rcases hk with rfl | rfl <;> exact ⟨rfl, rfl⟩

/-- What is read between two parentheses leaves the budget before them. -/
theorem settles_step_rightParen (h : Settles (b.step .leftParen) c) :
    Settles b (c.step .rightParen) ∧ (c.step .rightParen).inSum = b.inSum ∧ (c.step .rightParen).nodes = c.nodes := by
  have houter : c.outer = (b.times, b.inSum) :: b.outer := h.outer
  refine ⟨⟨?_, ?_, rfl⟩, ?_, rfl⟩ <;> simp [step, move, houter]

/-- An operator and the operand behind it leave the budget that the operand before it does. -/
theorem Settles.operator (h : Settles b c) (houter : d.outer = c.outer) (htimes : d.times = c.times)
    (h' : Settles d e) : Settles b e :=
  ⟨(h'.outer.trans houter).trans h.outer, (h'.times.trans htimes).trans h.times, h'.behindOperand⟩

theorem nodes_le_nodes_after (b : Budget) (ks : List Kind) : b.nodes ≤ (b.after ks).nodes := by
  induction ks generalizing b with
  | nil => exact Nat.le_refl _
  | cons k ks ih => exact Nat.le_trans (b.nodes_le_nodes_step k) (ih _)

/-! ## What the nesting says of a budget -/

/-- Tokens are read no more often than their level allows. -/
structure Within (b : Budget) (n : Nesting) : Prop where
  times : b.times ≤ 2 ^ n.level
  outer : List.Forall₂ (fun o l => o.1 ≤ 2 ^ l) b.outer n.outer

theorem within_start : start.Within Nesting.start := ⟨Nat.le_refl 1, .nil⟩

theorem Within.step (h : b.Within n) (k : Kind) : (b.step k).Within (n.step k) := by
  obtain ⟨htimes, houter⟩ := h
  cases k with
  | leftParen =>
    refine ⟨?_, .cons htimes houter⟩
    have htries : b.tries ≤ 2 := by rcases b.tries_cases with h | h <;> omega
    calc b.tries * b.times ≤ 2 * 2 ^ n.level := Nat.mul_le_mul htries htimes
      _ = 2 ^ (n.level + 1) := by rw [Nat.pow_succ, Nat.mul_comm]
      _ ≤ 2 ^ (n.level + n.signs + 1) := Nat.pow_le_pow_right (by decide) (by omega)
  | rightParen =>
    obtain ⟨times, inSum, inProduct, outer, previous, nodes⟩ := b
    obtain ⟨levels, level, signs, previous'⟩ := n
    cases houter with
    | nil => exact ⟨Nat.le_refl 1, .nil⟩
    | cons hhead htail => exact ⟨hhead, htail⟩
  | minus =>
    by_cases hb : b.behindOperand
    · refine ⟨?_, ?_⟩ <;> simp only [Budget.step, move, hb] <;> assumption
    · refine ⟨?_, ?_⟩ <;> simp only [Budget.step, move, hb] <;> assumption
  | identifier | integer | fixed | plus | star | slash | assign | semicolon => exact ⟨htimes, houter⟩

theorem Within.after (h : b.Within n) (ks : List Kind) : (b.after ks).Within (n.after ks) := by
  induction ks generalizing b n with
  | nil => exact h
  | cons k ks ih => exact ih (h.step k)

/-- Tokens that are read no more often than given pay for no more nodes each. -/
theorem nodes_after_le {bound : Nat} {ks : List Kind} (h : ∀ i, (b.after (ks.take i)).times ≤ bound) :
    (b.after ks).nodes ≤ b.nodes + ks.countP Kind.pays * bound := by
  induction ks generalizing b with
  | nil => exact Nat.le_add_right _ _
  | cons k ks ih =>
    have hih : (b.after (k :: ks)).nodes ≤ _ := ih fun i => h (i + 1)
    have htimes : b.times ≤ bound := h 0
    apply Nat.le_trans hih
    rw [nodes_step, List.countP_cons, Nat.add_mul]
    split <;> omega

/-- Within the limit no token is read more often than two to the power of the limit. -/
theorem times_after_le {α : Type} {limit : Nat} {l : List (Kind × α)}
    (h : Nesting.start.firstTooDeep limit l = none) (i : Nat) :
    (start.after ((l.map Prod.fst).take i)).times ≤ 2 ^ limit := by
  have hdepth := Nesting.depth_after_le_of_firstTooDeep (Nat.zero_le limit) h i
  refine Nat.le_trans (within_start.after _).times (Nat.pow_le_pow_right (by decide) ?_)
  exact Nat.le_trans (Nesting.level_le_depth _) hdepth

end Budget

/-- The budget before the token at a position, or behind all tokens. -/
def budgetAt (tokens : Array Token) (i : Nat) : Budget :=
  Budget.start.after (kindsBefore tokens i)

section

variable {tokens : Array Token} {i j : Nat} {t : Token}

theorem budgetAt_succ (h : tokens[i]? = some t) : budgetAt tokens (i + 1) = (budgetAt tokens i).step t.kind := by
  rw [budgetAt, kindsBefore_succ h, Budget.after_concat, budgetAt]

/-- What can be paid for only gets more. -/
theorem nodes_budgetAt_mono (h : i ≤ j) : (budgetAt tokens i).nodes ≤ (budgetAt tokens j).nodes := by
  obtain ⟨ks, hks⟩ : kindsBefore tokens i <+: kindsBefore tokens j := List.take_prefix_take_left h
  rw [budgetAt, budgetAt, ← hks, Budget.after, Budget.after, List.foldl_append]
  exact Budget.nodes_le_nodes_after _ ks

/-- What can be paid for up to a position can be paid for in the end. -/
theorem nodes_budgetAt_le_size (tokens : Array Token) (i : Nat) :
    (budgetAt tokens i).nodes ≤ (budgetAt tokens tokens.size).nodes := by
  by_cases hi : i ≤ tokens.size
  · exact nodes_budgetAt_mono hi
  · have hall : kindsBefore tokens i = kindsBefore tokens tokens.size := by
      rw [kindsBefore_of_size_le (Nat.le_of_not_le hi), kindsBefore_of_size_le (Nat.le_refl _)]
    exact Nat.le_of_eq (by rw [budgetAt, hall, budgetAt])

end

end Formula
