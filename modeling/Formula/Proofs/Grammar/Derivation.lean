import Mathlib.Data.List.Basic
import Formula.Proofs.Grammar.Meets

/-!
# The grammar as a set of derivations

The productions, independent of how tokens are read:

    program → stmt (';' stmt)* ';'?        expr   → expr ('+' | '-') term | term
    stmt    → IDENT '=' expr | expr        term   → term ('*' | '/') factor | factor
    factor  → '-' factor | atom            atom   → IDENT | INT | FIXED | '(' expr ')'

A derivation of tokens comes with the tree that it stands for. The leaves of the tree are those of the tokens, in
order (`Derives.leaves_eq`), and neither '=' nor ';' is part of an expression (`Derives.kind_ne`).
-/

namespace Formula

/-- The operator of a sum that a kind stands for. -/
def Kind.additive? : Kind → Option Operator
  | .plus => some .add
  | .minus => some .sub
  | _ => none

/-- The operator of a product that a kind stands for. -/
def Kind.multiplicative? : Kind → Option Operator
  | .star => some .mul
  | .slash => some .div
  | _ => none

section

variable {k : Kind} {o : Operator}

theorem Kind.additive?_eq_some :
    k.additive? = some o ↔ Class.ofKind k = .plus ∧ o = .add ∨ Class.ofKind k = .minus ∧ o = .sub := by
  cases k <;> simp [additive?, Class.ofKind, eq_comm]

theorem Kind.multiplicative?_eq_some :
    k.multiplicative? = some o ↔ Class.ofKind k = .star ∧ o = .mul ∨ Class.ofKind k = .slash ∧ o = .div := by
  cases k <;> simp [multiplicative?, Class.ofKind, eq_comm]

theorem Kind.additive?_eq_none : k.additive? = none ↔ Class.ofKind k ≠ .plus ∧ Class.ofKind k ≠ .minus := by
  cases k <;> simp [additive?, Class.ofKind]

theorem Kind.multiplicative?_eq_none : k.multiplicative? = none ↔ Class.ofKind k ≠ .star ∧ Class.ofKind k ≠ .slash := by
  cases k <;> simp [multiplicative?, Class.ofKind]

theorem Kind.eq_of_additive? (h : k.additive? = some o) : k = .plus ∨ k = .minus :=
  (additive?_eq_some.mp h).imp (fun h => Class.eq_kind h.1 (by decide)) (fun h => Class.eq_kind h.1 (by decide))

theorem Kind.eq_of_multiplicative? (h : k.multiplicative? = some o) : k = .star ∨ k = .slash :=
  (multiplicative?_eq_some.mp h).imp (fun h => Class.eq_kind h.1 (by decide)) (fun h => Class.eq_kind h.1 (by decide))

theorem Kind.isValued_of_additive? (h : k.additive? = some o) : k.isValued = false := by
  cases k <;> first | rfl | cases h

theorem Kind.isValued_of_multiplicative? (h : k.multiplicative? = some o) : k.isValued = false := by
  cases k <;> first | rfl | cases h

/-- An operator of a sum is none of a product. -/
theorem Kind.multiplicative?_of_additive? (h : k.additive? = some o) : k.multiplicative? = none := by
  cases k <;> first | rfl | cases h

theorem Kind.additive?_of_multiplicative? (h : k.multiplicative? = some o) : k.additive? = none := by
  cases k <;> first | rfl | cases h

end

namespace Grammar

/-- The tree of an expression; a leaf is the node that its token came with. -/
inductive Tree
  | leaf (id : NodeId)
  | paren (inner : Tree)
  | negation (operand : Tree)
  | binary (operator : Operator) (left right : Tree)
deriving DecidableEq

/-- A statement; a program is a list of them. -/
inductive Statement
  | assignment (target : NodeId) (value : Tree)
  | expression (tree : Tree)
deriving DecidableEq

/-- What an expression can be derived as. -/
inductive Category
  | expr
  | term
  | factor
  | atom

/-- The tokens are derived as an expression with the given tree. -/
inductive Derives : Category → List Token → Tree → Prop
  | additive {u v : List Token} {t : Token} {l r : Tree} {o : Operator} :
      Derives .expr u l → t.kind.additive? = some o → Derives .term v r → Derives .expr (u ++ t :: v) (.binary o l r)
  | ofTerm {w : List Token} {e : Tree} : Derives .term w e → Derives .expr w e
  | multiplicative {u v : List Token} {t : Token} {l r : Tree} {o : Operator} :
      Derives .term u l → t.kind.multiplicative? = some o → Derives .factor v r →
      Derives .term (u ++ t :: v) (.binary o l r)
  | ofFactor {w : List Token} {e : Tree} : Derives .factor w e → Derives .term w e
  | negation {w : List Token} {t : Token} {e : Tree} :
      t.kind = .minus → Derives .factor w e → Derives .factor (t :: w) (.negation e)
  | ofAtom {w : List Token} {e : Tree} : Derives .atom w e → Derives .factor w e
  | leaf {t : Token} {id : NodeId} : t.kind.isValued = true → t.payload = some id → Derives .atom [t] (.leaf id)
  | paren {w : List Token} {t t' : Token} {e : Tree} :
      t.kind = .leftParen → Derives .expr w e → t'.kind = .rightParen → Derives .atom (t :: (w ++ [t'])) (.paren e)

/-- The tokens are derived as a statement. -/
inductive DerivesStatement : List Token → Statement → Prop
  | assignment {w : List Token} {t t' : Token} {id : NodeId} {e : Tree} :
      t.kind = .identifier → t.payload = some id → t'.kind = .assign → Derives .expr w e →
      DerivesStatement (t :: t' :: w) (.assignment id e)
  | expression {w : List Token} {e : Tree} : Derives .expr w e → DerivesStatement w (.expression e)

/-- The tokens are derived as statements with a semicolon between any two. -/
inductive DerivesStatements : List Token → List Statement → Prop
  | single {w : List Token} {s : Statement} : DerivesStatement w s → DerivesStatements w [s]
  | more {u v : List Token} {t : Token} {ss : List Statement} {s : Statement} :
      DerivesStatements u ss → t.kind = .semicolon → DerivesStatement v s → DerivesStatements (u ++ t :: v) (ss ++ [s])

/-- The tokens are derived as a program. -/
inductive DerivesProgram : List Token → List Statement → Prop
  | plain {w : List Token} {ss : List Statement} : DerivesStatements w ss → DerivesProgram w ss
  | closed {w : List Token} {t : Token} {ss : List Statement} :
      DerivesStatements w ss → t.kind = .semicolon → DerivesProgram (w ++ [t]) ss

/-! ## What a derivation says of its tokens -/

/-- The leaf that a token of a valued kind came with. -/
def leaf? (t : Token) : Option NodeId :=
  if t.kind.isValued then t.payload else none

theorem leaf?_eq_none {t : Token} (h : t.kind.isValued = false) : leaf? t = none := by
  rw [leaf?, h]
  rfl

/-- The leaves of a tree from left to right. -/
def Tree.leaves : Tree → List NodeId
  | leaf id => [id]
  | paren e => e.leaves
  | negation e => e.leaves
  | binary _ l r => l.leaves ++ r.leaves

/-- The leaves of a statement from left to right. -/
def Statement.leaves : Statement → List NodeId
  | assignment id e => id :: e.leaves
  | expression e => e.leaves

variable {c : Category} {w : List Token} {e : Tree}

/-- The leaves of an expression are those of its tokens. -/
theorem Derives.leaves_eq (h : Derives c w e) : e.leaves = w.filterMap leaf? := by
  induction h with
  | additive _ ho _ ihl ihr =>
    simp [Tree.leaves, ihl, ihr, leaf?_eq_none (Kind.isValued_of_additive? ho)]
  | multiplicative _ ho _ ihl ihr =>
    simp [Tree.leaves, ihl, ihr, leaf?_eq_none (Kind.isValued_of_multiplicative? ho)]
  | negation ht _ ih => simp [Tree.leaves, ih, leaf?, ht, Kind.isValued]
  | leaf hv hp => simp [Tree.leaves, leaf?, hv, hp]
  | paren ht _ ht' ih => simp [Tree.leaves, ih, leaf?, ht, ht', Kind.isValued]
  | ofTerm _ ih | ofFactor _ ih | ofAtom _ ih => exact ih

theorem DerivesStatement.leaves_eq {s : Statement} (h : DerivesStatement w s) : s.leaves = w.filterMap leaf? := by
  cases h with
  | assignment ht hp ht' he => simp [Statement.leaves, he.leaves_eq, leaf?, ht, hp, ht', Kind.isValued]
  | expression he => exact he.leaves_eq

theorem DerivesStatements.leaves_eq {ss : List Statement} (h : DerivesStatements w ss) :
    ss.flatMap Statement.leaves = w.filterMap leaf? := by
  induction h with
  | single hs => simp [hs.leaves_eq]
  | more _ ht hs ih => simp [ih, hs.leaves_eq, leaf?, ht, Kind.isValued]

/-- The leaves of a program are those of its tokens. -/
theorem DerivesProgram.leaves_eq {ss : List Statement} (h : DerivesProgram w ss) :
    ss.flatMap Statement.leaves = w.filterMap leaf? := by
  cases h with
  | plain h => exact h.leaves_eq
  | closed h ht => simp [h.leaves_eq, leaf?, ht, Kind.isValued]

theorem Derives.ne_nil (h : Derives c w e) : w ≠ [] := by
  induction h with
  | ofTerm _ ih | ofFactor _ ih | ofAtom _ ih => exact ih
  | additive _ _ _ _ _ | multiplicative _ _ _ _ _ => simp
  | negation _ _ _ | leaf _ _ | paren _ _ _ _ => simp

theorem DerivesStatements.ne_nil {ss : List Statement} (h : DerivesStatements w ss) : ss ≠ [] := by
  cases h <;> simp

theorem DerivesProgram.ne_nil {ss : List Statement} (h : DerivesProgram w ss) : ss ≠ [] := by
  cases h with
  | plain h | closed h _ => exact h.ne_nil

/-- Neither '=' nor ';' is part of an expression. -/
theorem Derives.kind_ne (h : Derives c w e) : ∀ t ∈ w, t.kind ≠ .assign ∧ t.kind ≠ .semicolon := by
  induction h with
  | @additive u v t l r o _ ho _ ihl ihr =>
    have ht : t.kind ≠ .assign ∧ t.kind ≠ .semicolon := by
      rcases Kind.eq_of_additive? ho with hk | hk <;> rw [hk] <;> decide
    exact List.forall_mem_append.mpr ⟨ihl, List.forall_mem_cons.mpr ⟨ht, ihr⟩⟩
  | @multiplicative u v t l r o _ ho _ ihl ihr =>
    have ht : t.kind ≠ .assign ∧ t.kind ≠ .semicolon := by
      rcases Kind.eq_of_multiplicative? ho with hk | hk <;> rw [hk] <;> decide
    exact List.forall_mem_append.mpr ⟨ihl, List.forall_mem_cons.mpr ⟨ht, ihr⟩⟩
  | negation ht _ ih => exact List.forall_mem_cons.mpr ⟨by rw [ht]; decide, ih⟩
  | leaf hv _ =>
    refine List.forall_mem_singleton.mpr ?_
    constructor <;> intro hk <;> rw [hk] at hv <;> cases hv
  | @paren w t t' e ht _ ht' ih =>
    have hclose : t'.kind ≠ .assign ∧ t'.kind ≠ .semicolon := by rw [ht']; decide
    refine List.forall_mem_cons.mpr ⟨by rw [ht]; decide, ?_⟩
    exact List.forall_mem_append.mpr ⟨ih, List.forall_mem_singleton.mpr hclose⟩
  | ofTerm _ ih | ofFactor _ ih | ofAtom _ ih => exact ih

end Grammar

end Formula
