import Formula.Token

/-!
# Token classes

The classes of tokens that the rules of a grammar ask for, and the text that names what was expected where none fits.
-/

namespace Formula

/-- What a rule can expect, in the order in which expectations are listed. -/
inductive Class
  | leftParen
  | rightParen
  | star
  | plus
  | minus
  | slash
  | semicolon
  | assign
  | identifier
  | literal
deriving DecidableEq, Repr

namespace Class

def all : List Class :=
  [leftParen, rightParen, star, plus, minus, slash, semicolon, assign, identifier, literal]

def name : Class → String
  | leftParen => "'('"
  | rightParen => "')'"
  | star => "'*'"
  | plus => "'+'"
  | minus => "'-'"
  | slash => "'/'"
  | semicolon => "';'"
  | assign => "'='"
  | identifier => "identifier"
  | literal => "literal"

/-- The class of a kind. -/
def ofKind : Kind → Class
  | .identifier => identifier
  | .integer | .fixed => literal
  | .plus => plus
  | .minus => minus
  | .star => star
  | .slash => slash
  | .leftParen => leftParen
  | .rightParen => rightParen
  | .assign => assign
  | .semicolon => semicolon

/-- The kind of a class that has only one; the class of literals has another. -/
def kind : Class → Kind
  | leftParen => .leftParen
  | rightParen => .rightParen
  | star => .star
  | plus => .plus
  | minus => .minus
  | slash => .slash
  | semicolon => .semicolon
  | assign => .assign
  | identifier => .identifier
  | literal => .integer

theorem eq_kind {k : Kind} {c : Class} (h : ofKind k = c) (hc : c ≠ literal) : k = c.kind := by
  subst h
  cases k <;> first | rfl | exact absurd rfl hc

/-- The kinds that carry a value are those of names and literals. -/
theorem isValued_iff (k : Kind) : k.isValued = true ↔ ofKind k = identifier ∨ ofKind k = literal := by
  cases k <;> simp [Kind.isValued, ofKind]

theorem mem_all (c : Class) : c ∈ all := by
  cases c <;> decide

/-- The expected classes as a text. -/
def describe (expected : List Class) : String :=
  match (all.filter (· ∈ expected)).map name with
  | [] => "<unreported>"
  | [one] => one
  | names => "one of " ++ ", ".intercalate names

end Class

end Formula
