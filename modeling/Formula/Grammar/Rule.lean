import Formula.Arena.Basic
import Formula.Grammar.Class

/-!
# Rules

A rule reads tokens from a position on. It matches, and gives a value and the position behind it, or fails; what it
has made in the arena stays either way. `r <|> r'` tries `r'` where `r` failed, so the first alternative that matches
is final. A rule that looks for a class in vain leaves a mark on the probe, which knows the furthest position with a
mark or collects the classes marked at one position.
-/

namespace Formula.Grammar

/-- What the marks of a run are used for. -/
inductive Probe
  /-- To locate the furthest mark. -/
  | locate (furthest : Nat)
  /-- To list the classes marked at the position. -/
  | explain (position : Nat) (expected : List Class)

namespace Probe

/-- Takes note that the class was looked for in vain at the position `i`. -/
def mark (c : Class) (i : Nat) : Probe → Probe
  | locate furthest => locate (max furthest i)
  | explain position expected => explain position (if i = position ∧ c ∉ expected then c :: expected else expected)

/-- The position that the probe is about. -/
def position : Probe → Nat
  | locate furthest => furthest
  | explain position _ => position

/-- The classes listed for it. -/
def expected : Probe → List Class
  | locate _ => []
  | explain _ expected => expected

end Probe

/-- What rules change while they run. -/
structure Run where
  arena : Arena
  probe : Probe

/-- The outcome of a rule. -/
inductive Outcome (α : Type)
  /-- A value and the position behind what was read. -/
  | matched (value : α) (next : Nat)
  | failed
  /-- The rule would have to nest deeper than it may. -/
  | exhausted

/-- A rule that gives a value. -/
def Rule (α : Type) : Type :=
  Array Token → Nat → Run → Outcome α × Run

namespace Rule

variable {α β : Type}

/-- Reads nothing. -/
def pure (a : α) : Rule α := fun _ i run => (.matched a i, run)

/-- One rule and then another, which depends on the value of the first. -/
def bind (r : Rule α) (f : α → Rule β) : Rule β := fun tokens i run =>
  match r tokens i run with
  | (.matched a j, run) => f a tokens j run
  | (.failed, run) => (.failed, run)
  | (.exhausted, run) => (.exhausted, run)

instance : Monad Rule where
  pure := pure
  bind := bind

/-- One rule, or another where it fails. -/
def orElse (r : Rule α) (r' : Unit → Rule α) : Rule α := fun tokens i run =>
  match r tokens i run with
  | (.failed, run) => r' () tokens i run
  | outcome => outcome

instance : OrElse (Rule α) where
  orElse := orElse

def exhausted : Rule α := fun _ _ run => (.exhausted, run)

/-- Fails at a position where the class was looked for. -/
def miss (c : Class) : Rule α := fun _ i run => (.failed, { run with probe := run.probe.mark c i })

/-- The next token, if it gives a value; a mark for the class if not. -/
def token (c : Class) (value? : Token → Option α) : Rule α := fun tokens i run =>
  match tokens[i]?.bind value? with
  | some a => (.matched a (i + 1), run)
  | none => miss c tokens i run

/-- A token of the class. -/
def symbol (c : Class) : Rule Unit :=
  token c fun t => if Class.ofKind t.kind = c then some () else none

/-- The leaf of a token of the class; a token without one does not match. -/
def leaf (c : Class) : Rule NodeId :=
  token c fun t => if Class.ofKind t.kind = c then t.payload else none

/-- The end of the tokens; it leaves no mark. -/
def atEnd : Rule Unit := fun tokens i run =>
  if i < tokens.size then (.failed, run) else (.matched () i, run)

/-- The rule if it matches, or nothing. -/
def optional (r : Rule Unit) : Rule Unit :=
  r <|> pure ()

/-- Makes a node. -/
def create (node : Node) : Rule NodeId := fun _ i run =>
  (.matched run.arena.nextId i, { run with arena := run.arena.push node })

/-- Repeats a step from a value on, as often as it matches; a step that reads nothing is the last. -/
def iterate (step : α → Rule α) (a : α) : Rule α := fun tokens i run =>
  match step a tokens i run with
  | (.matched b j, run) =>
    if i < j ∧ j ≤ tokens.size then iterate step b tokens j run else (.matched b j, run)
  | (.failed, run) => (.matched a i, run)
  | (.exhausted, run) => (.exhausted, run)
termination_by tokens i => tokens.size - i

/-! ## Equations -/

section

variable {r : Rule α} {tokens : Array Token} {i j : Nat} {run run' : Run} {a : α}

theorem bind_matched (f : α → Rule β) (h : r tokens i run = (.matched a j, run')) :
    (r >>= f) tokens i run = f a tokens j run' := by
  show bind r f tokens i run = _
  rw [bind, h]

theorem bind_failed (f : α → Rule β) (h : r tokens i run = (.failed, run')) :
    (r >>= f) tokens i run = (.failed, run') := by
  show bind r f tokens i run = _
  rw [bind, h]

theorem bind_exhausted (f : α → Rule β) (h : r tokens i run = (.exhausted, run')) :
    (r >>= f) tokens i run = (.exhausted, run') := by
  show bind r f tokens i run = _
  rw [bind, h]

theorem orElse_matched (r' : Rule α) (h : r tokens i run = (.matched a j, run')) :
    (r <|> r') tokens i run = (.matched a j, run') := by
  show orElse r (fun _ => r') tokens i run = _
  rw [orElse, h]

theorem orElse_failed (r' : Rule α) (h : r tokens i run = (.failed, run')) :
    (r <|> r') tokens i run = r' tokens i run' := by
  show orElse r (fun _ => r') tokens i run = _
  rw [orElse, h]

theorem orElse_exhausted (r' : Rule α) (h : r tokens i run = (.exhausted, run')) :
    (r <|> r') tokens i run = (.exhausted, run') := by
  show orElse r (fun _ => r') tokens i run = _
  rw [orElse, h]

/-- A step that reads on is followed by more of them. -/
theorem iterate_matched {step : α → Rule α} {b : α} (h : step a tokens i run = (.matched b j, run')) (hij : i < j)
    (hj : j ≤ tokens.size) : iterate step a tokens i run = iterate step b tokens j run' := by
  rw [iterate, h]
  simp [hij, hj]

/-- A repetition ends where its step fails. -/
theorem iterate_failed {step : α → Rule α} (h : step a tokens i run = (.failed, run')) :
    iterate step a tokens i run = (.matched a i, run') := by
  rw [iterate, h]

end

end Rule

end Formula.Grammar
