import Formula.Lexeme.Basic

/-!
# Nesting

How deep a program nests: every open parenthesis and every sign before an operand is one level. The depth is followed
from token to token before any tree is built. A minus is a sign unless an operand ends just before it; signs in a row
belong to the operand that follows, and a parenthesis gives back its level and those of the signs before it when it is
closed.
-/

namespace Formula

/-- The nesting before a token. -/
structure Nesting where
  /-- The levels outside the open parentheses, the innermost first. -/
  outer : List Nat
  level : Nat
  /-- How many signs stand just before. -/
  signs : Nat
  previous : Option Kind
deriving DecidableEq, Repr

namespace Nesting

def start : Nesting := ⟨[], 0, 0, none⟩

def depth (n : Nesting) : Nat :=
  n.level + n.signs

/-- Whether an operand ends just before. -/
def behindOperand (n : Nesting) : Bool :=
  n.previous.elim false Kind.endsOperand

/-- The nesting after a token. -/
def step (n : Nesting) (kind : Kind) : Nesting :=
  match kind with
  | .minus => { n with signs := if n.behindOperand then 0 else n.signs + 1, previous := some kind }
  | .leftParen => ⟨n.level :: n.outer, n.level + n.signs + 1, 0, some kind⟩
  | .rightParen => ⟨n.outer.tail, n.outer.head?.getD 0, 0, some kind⟩
  | _ => { n with signs := 0, previous := some kind }

/-- The first of the tokens that nests deeper than the limit; the tokens come with whatever is known of them. -/
def firstTooDeep {α : Type} (limit : Nat) (n : Nesting) : List (Kind × α) → Option α
  | [] => none
  | (kind, place) :: rest =>
    let n := n.step kind
    if limit < n.depth then some place else n.firstTooDeep limit rest

end Nesting

end Formula
