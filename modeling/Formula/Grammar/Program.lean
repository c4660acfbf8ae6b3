import Formula.Grammar.Rule

/-!
# The grammar of programs

A program is one or more statements with semicolons between them and perhaps one behind them. A statement is an
assignment or an expression. Products bind closer than sums, and signs closer than both; operators of one level group
to the left. A right operand that fails at the level of its operator makes the operator fail, and the operators of the
levels outside are still tried there.

The rules below a parenthesis or a sign are given by `enter`, so that `expression n` nests no deeper than `n`.
-/

namespace Formula.Grammar

/-- What an expression may be without parentheses around it. -/
inductive Level
  | sum
  | product
  | factor
deriving DecidableEq, Repr

section

variable (enter : Level → Rule NodeId)

/-- A name, a numeral, or a sum in parentheses. -/
def atom : Rule NodeId :=
  Rule.leaf .identifier <|> Rule.leaf .literal <|> do
    Rule.symbol .leftParen
    let inner ← enter .sum
    Rule.symbol .rightParen
    Rule.create (.paren inner)

/-- An atom with any number of signs before it. -/
def factor : Rule NodeId :=
  (do
    Rule.symbol .minus
    let operand ← enter .factor
    Rule.create (.negation operand)) <|>
  atom enter

/-- An operator behind its left operand, and its right operand. -/
def operation (symbol : Class) (operator : Operator) (right : Rule NodeId) (left : NodeId) : Rule NodeId := do
  Rule.symbol symbol
  let right ← right
  Rule.create (.binary operator left right)

/-- The operators of a product behind a left operand. -/
def productStep (left : NodeId) : Rule NodeId :=
  operation .star .mul (factor enter) left <|> operation .slash .div (factor enter) left

def product : Rule NodeId := do
  let first ← factor enter
  Rule.iterate (productStep enter) first

/-- The operators of a sum behind a left operand; those of a product may stand there as well. -/
def sumStep (left : NodeId) : Rule NodeId :=
  operation .plus .add (product enter) left <|> operation .minus .sub (product enter) left <|> productStep enter left

def sum : Rule NodeId := do
  let first ← factor enter
  Rule.iterate (sumStep enter) first

def level : Level → Rule NodeId
  | .sum => sum enter
  | .product => product enter
  | .factor => factor enter

end

/-- The expressions that nest no deeper than the bound. -/
def expression : Nat → Level → Rule NodeId
  | 0 => level fun _ => Rule.exhausted
  | n + 1 => level (expression n)

/-- The root over statements; a single one is its own root. -/
def rootOf : List NodeId → Rule NodeId
  | [item] => return item
  | items => Rule.create (.sequence items)

section

variable (expr : Rule NodeId)

def assignment : Rule NodeId := do
  let target ← Rule.leaf .identifier
  Rule.symbol .assign
  let value ← expr
  Rule.create (.assignment target value)

def statement : Rule NodeId :=
  assignment expr <|> expr

/-- One more statement after a semicolon, in front of those before it. -/
def nextStatement (items : List NodeId) : Rule (List NodeId) := do
  Rule.symbol .semicolon
  let item ← statement expr
  return item :: items

/-- Statements with semicolons between them. -/
def statements : Rule (List NodeId) := do
  let first ← statement expr
  let items ← Rule.iterate (nextStatement expr) [first]
  return items.reverse

/-- A program over the given expressions. -/
def program : Rule NodeId := do
  let items ← statements expr
  Rule.optional (Rule.symbol .semicolon)
  Rule.atEnd
  rootOf items

end

/-- What reading tokens as a program comes to. -/
inductive Reading
  | program (root : NodeId)
  /-- No program has the token at the position; one of the classes would have been possible there. -/
  | stuck (position : Nat) (expected : List Class)

/-- Runs the grammar over tokens. Every level of nesting takes up a token, so the bound is never reached. -/
def run (tokens : Array Token) (arena : Arena) (probe : Probe) : Outcome NodeId × Run :=
  program (expression tokens.size .sum) tokens 0 ⟨arena, probe⟩

/-- Reads tokens as a program. A first run locates where the tokens stop being one, a second one finds out what was
expected there; both leave their nodes in the arena. -/
def read (tokens : Array Token) (arena : Arena) : Reading × Arena :=
  match run tokens arena (.locate 0) with
  | (.matched root _, first) => (.program root, first.arena)
  | (_, first) =>
    let second := (run tokens first.arena (.explain first.probe.position [])).2
    (.stuck first.probe.position second.probe.expected, second.arena)

end Formula.Grammar
