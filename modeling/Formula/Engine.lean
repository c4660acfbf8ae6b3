import Formula.Bench

/-!
# Engines

An engine is what turns a supply of tokens into a tree. It works through requests: it takes tokens, makes nodes,
records a root, looks at what is there, lets the grammar read the rest, and ends with a value. It has no other way to
change the state of a parse.
-/

namespace Formula

/-- A sequence of requests that ends with a value; each request depends on the answers to those before it. A request
that breaks off need not be the last: an engine may catch that and go on. -/
inductive Engine (α : Type)
  | done (value : α)
  | next (resume : Ending (Option Token) → Engine α)
  | create (node : Node) (resume : NodeId → Engine α)
  | record (root : NodeId) (resume : Engine α)
  | look (resume : Arena → Option NodeId → Span → Engine α)
  | readProgram (limit : Nat) (resume : Ending Unit → Engine α)

namespace Engine

variable {α : Type}

/-- Works through the requests of an engine. -/
def run : Engine α → Bench → α × Bench
  | done a, b => (a, b)
  | next k, b => let (answer, b) := b.request; (k answer).run b
  | create node k, b => let (id, b) := b.create node; (k id).run b
  | record root k, b => k.run (b.record root)
  | look k, b => (k b.arena b.root b.supply.span).run b
  | readProgram limit k, b => let (answer, b) := b.requestProgram limit; (k answer).run b

/-- The engine that lets the grammar read everything. -/
def grammar (limit : Nat) : Engine (Ending Unit × Unit) :=
  .readProgram limit fun ending => .done (ending, ())

end Engine

end Formula
