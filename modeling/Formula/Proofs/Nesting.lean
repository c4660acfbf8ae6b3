import Mathlib.Data.List.Basic
import Formula.Nesting
import Formula.Token

/-!
# The nesting at every token

`nestingAt tokens i` is the nesting before the token at the position `i`. If no token nests deeper than the limit, the
nesting is nowhere deeper (`depth_nestingAt_le`), and it is nowhere deeper than there are tokens
(`depth_nestingAt_le_size`). An operand leaves the nesting that it started in, behind an operand and without signs
(`Settles`).
-/

namespace Formula

namespace Nesting

/-- The nesting after more tokens of the given kinds. -/
def after (n : Nesting) (kinds : List Kind) : Nesting :=
  kinds.foldl step n

variable {n m : Nesting} {k : Kind} {limit : Nat}

theorem after_cons (n : Nesting) (k : Kind) (ks : List Kind) : n.after (k :: ks) = (n.step k).after ks := rfl

theorem after_concat (n : Nesting) (ks : List Kind) (k : Kind) : n.after (ks ++ [k]) = (n.after ks).step k := by
  simp [after]

theorem firstTooDeep_cons_eq_none_iff {α : Type} {place : α} {l : List (Kind × α)} :
    n.firstTooDeep limit ((k, place) :: l) = none ↔
      (n.step k).depth ≤ limit ∧ (n.step k).firstTooDeep limit l = none := by
  by_cases h : limit < (n.step k).depth
  · simp only [firstTooDeep, if_pos h, reduceCtorEq, false_iff, not_and]
    exact fun hle => absurd h (Nat.not_lt.mpr hle)
  · simp [firstTooDeep, h, Nat.not_lt.mp h]

/-- Where no token nests too deep, the nesting is nowhere too deep. -/
theorem depth_after_le_of_firstTooDeep {α : Type} {l : List (Kind × α)} (hn : n.depth ≤ limit)
    (h : n.firstTooDeep limit l = none) (i : Nat) : (n.after ((l.map Prod.fst).take i)).depth ≤ limit := by
  induction l generalizing n i with
  | nil => simpa [after] using hn
  | cons e l ih =>
    obtain ⟨k, place⟩ := e
    obtain ⟨hstep, hrest⟩ := firstTooDeep_cons_eq_none_iff.mp h
    cases i with
    | zero => exact hn
    | succ i => exact ih hstep hrest i

/-- What no limit refuses is within every larger one. -/
theorem firstTooDeep_eq_none_of_le {α : Type} {limit' : Nat} {l : List (Kind × α)} (hle : limit ≤ limit')
    (h : n.firstTooDeep limit l = none) : n.firstTooDeep limit' l = none := by
  induction l generalizing n with
  | nil => rfl
  | cons e l ih =>
    obtain ⟨hstep, hrest⟩ := firstTooDeep_cons_eq_none_iff.mp h
    exact firstTooDeep_cons_eq_none_iff.mpr ⟨Nat.le_trans hstep hle, ih hrest⟩

theorem mem_of_firstTooDeep {α : Type} {place : α} {l : List (Kind × α)} (h : n.firstTooDeep limit l = some place) :
    place ∈ l.map Prod.snd := by
  induction l generalizing n with
  | nil => cases h
  | cons e l ih =>
    rw [firstTooDeep] at h
    rw [List.map_cons]
    split at h
    · exact Option.some.inj h ▸ List.mem_cons_self
    · exact List.mem_cons_of_mem _ (ih h)

/-- Under a smaller limit the first token that nests too deep is the same or one before it. -/
theorem exists_firstTooDeep_of_le {α : Type} {limit' : Nat} {place : α} {l : List (Kind × α)} {r : α → α → Prop}
    (hle : limit ≤ limit') (hl : (l.map Prod.snd).Pairwise r) (h : n.firstTooDeep limit' l = some place) :
    ∃ place', n.firstTooDeep limit l = some place' ∧ (place' = place ∨ r place' place) := by
  induction l generalizing n with
  | nil => cases h
  | cons e l ih =>
    obtain ⟨k, head⟩ := e
    rw [List.map_cons, List.pairwise_cons] at hl
    obtain ⟨hhead, hl⟩ := hl
    rw [firstTooDeep] at h ⊢
    by_cases hstep : limit < (n.step k).depth
    · rw [if_pos hstep]
      refine ⟨head, rfl, ?_⟩
      split at h
      · exact .inl (Option.some.inj h)
      · exact .inr (hhead place (mem_of_firstTooDeep h))
    · rw [if_neg (fun hstep' => hstep (Nat.lt_of_le_of_lt hle hstep'))] at h
      rw [if_neg hstep]
      exact ih hl h

/-! ## How deep it can get -/

/-- No level is above the bound. -/
def AtMost (bound : Nat) (n : Nesting) : Prop :=
  (∀ l ∈ n.outer, l ≤ bound) ∧ n.depth ≤ bound

/-- One token is at most one level. -/
theorem AtMost.step {bound : Nat} (h : n.AtMost bound) (k : Kind) : (n.step k).AtMost (bound + 1) := by
  obtain ⟨houter, hdepth⟩ := h
  have hle : ∀ l ∈ n.outer, l ≤ bound + 1 := fun l hl => Nat.le_succ_of_le (houter l hl)
  unfold depth at hdepth
  cases k with
  | minus =>
    refine ⟨hle, ?_⟩
    simp only [Nesting.step, depth]
    split <;> omega
  | leftParen =>
    refine ⟨fun l hl => ?_, ?_⟩
    · rcases List.mem_cons.mp hl with rfl | hl
      · omega
      · exact hle l hl
    · simp only [Nesting.step, depth]
      omega
  | rightParen =>
    refine ⟨fun l hl => hle l (List.mem_of_mem_tail hl), ?_⟩
    simp only [Nesting.step, depth]
    cases houter' : n.outer with
    | nil => simp
    | cons l ls => simpa using hle l (by simp [houter'])
  | identifier | integer | fixed | plus | star | slash | assign | semicolon =>
    refine ⟨hle, ?_⟩
    simp only [Nesting.step, depth]
    omega

theorem AtMost.after {bound : Nat} (h : n.AtMost bound) (ks : List Kind) : (n.after ks).AtMost (bound + ks.length) := by
  induction ks generalizing n bound with
  | nil => exact h
  | cons k ks ih =>
    have := ih (h.step k)
    rwa [after_cons, List.length_cons, Nat.add_comm ks.length, ← Nat.add_assoc]

/-- Tokens nest no deeper than there are tokens. -/
theorem depth_after_le (ks : List Kind) : (start.after ks).depth ≤ ks.length := by
  have hstart : start.AtMost 0 := ⟨by simp [start], by simp [start, depth]⟩
  have := (hstart.after ks).2
  rwa [Nat.zero_add] at this

theorem level_le_depth (n : Nesting) : n.level ≤ n.depth :=
  Nat.le_add_right _ _

/-! ## Operands and operators -/

/-- The second nesting is that behind an operand which started in the first. -/
structure Settles (n m : Nesting) : Prop where
  outer : m.outer = n.outer
  level : m.level = n.level
  signs : m.signs = 0
  behindOperand : m.behindOperand = true

theorem settles_step_of_isValued (n : Nesting) (hk : k.isValued = true) : Settles n (n.step k) := by
  cases k <;> first | exact ⟨rfl, rfl, rfl, rfl⟩ | cases hk

/-- Only parentheses change the level. -/
theorem step_of_ne_paren (n : Nesting) (h : k ≠ .leftParen) (h' : k ≠ .rightParen) :
    (n.step k).outer = n.outer ∧ (n.step k).level = n.level := by
  cases k <;> first | exact ⟨rfl, rfl⟩ | exact absurd rfl h | exact absurd rfl h'

/-- A sign before an operand is one level deeper. -/
theorem depth_step_minus (h : n.behindOperand = false) : (n.step .minus).depth = n.depth + 1 := by
  simp only [step, depth, h]
  rfl

/-- What is read between two parentheses leaves the nesting before them. -/
theorem settles_step_rightParen (h : Settles (n.step .leftParen) m) : Settles n (m.step .rightParen) := by
  have houter : m.outer = n.level :: n.outer := h.outer
  refine ⟨?_, ?_, rfl, rfl⟩ <;> simp [step, houter]

theorem behindOperand_step (n : Nesting) (k : Kind) : (n.step k).behindOperand = k.endsOperand := by
  cases k <;> rfl

end Nesting

section

variable {tokens : Array Token} {i : Nat} {t : Token}

/-- The kinds of the tokens before a position. -/
def kindsBefore (tokens : Array Token) (i : Nat) : List Kind :=
  (tokens.toList.map Token.kind).take i

theorem kindsBefore_succ (h : tokens[i]? = some t) : kindsBefore tokens (i + 1) = kindsBefore tokens i ++ [t.kind] := by
  have ht : (tokens.toList.map Token.kind)[i]? = some t.kind := by simp [h]
  rw [kindsBefore, List.take_add_one, ht, Option.toList_some, kindsBefore]

theorem kindsBefore_of_size_le (h : tokens.size ≤ i) : kindsBefore tokens i = tokens.toList.map Token.kind :=
  List.take_of_length_le (by simpa using h)

/-- The nesting before the token at a position, or behind all tokens. -/
def nestingAt (tokens : Array Token) (i : Nat) : Nesting :=
  Nesting.start.after (kindsBefore tokens i)

theorem nestingAt_succ (h : tokens[i]? = some t) : nestingAt tokens (i + 1) = (nestingAt tokens i).step t.kind := by
  rw [nestingAt, kindsBefore_succ h, Nesting.after_concat, nestingAt]

/-- The nesting is nowhere deeper than there are tokens. -/
theorem depth_nestingAt_le_size (tokens : Array Token) (i : Nat) : (nestingAt tokens i).depth ≤ tokens.size := by
  apply Nat.le_trans (Nesting.depth_after_le _)
  simp only [kindsBefore, List.length_take, List.length_map, Array.length_toList]
  exact Nat.min_le_right _ _

/-- Where no token nests too deep, the nesting is nowhere too deep. -/
theorem depth_nestingAt_le {α : Type} {limit : Nat} {l : List (Token × α)}
    (h : Nesting.start.firstTooDeep limit (l.map fun (t, place) => (t.kind, place)) = none) (i : Nat) :
    (nestingAt (l.map Prod.fst).toArray i).depth ≤ limit := by
  have hkinds : (l.map fun (t, place) => (t.kind, place)).map Prod.fst = (l.map Prod.fst).map Token.kind := by simp
  have hdepth := Nesting.depth_after_le_of_firstTooDeep (Nat.zero_le limit) h i
  rwa [hkinds] at hdepth

end

end Formula
