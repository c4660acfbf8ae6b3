import Formula.Lexeme.Basic
import Formula.Node

/-!
# Tokens

What a grammar reads: the kind of a lexeme and the leaf that was made for it. A token of a valued kind that comes from
a lexeme always has a leaf, and no other has one; tokens from elsewhere may be without it.
-/

namespace Formula

/-- A token of the grammar. -/
structure Token where
  kind : Kind
  payload : Option NodeId
deriving DecidableEq, Repr

end Formula
