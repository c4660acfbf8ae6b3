import Formula.Grammar.Program
import Formula.Nesting
import Formula.Supply

/-!
# The bench of one parse

What a parse works on: the arena in which it makes nodes, the root it may record, and the supply it takes tokens from.
`readProgram` is the grammar at work: it takes all tokens off the supply, refuses what nests too deep, and reads the
rest as a program. It records a root only if it succeeds.

The end of the supply need not be the end of what its lexer has in store, and the lexer may also panic there: `request`
and `requestProgram` are what an engine comes upon.
-/

namespace Formula

/-- The state of one parse. -/
structure Bench where
  arena : Arena
  root : Option NodeId
  supply : Supply
  journal : Array Event
  /-- What comes behind the end of the supply. -/
  later : List (Break × List (Except Failure Lexeme)) := []

namespace Bench

/-- Takes the next token off the supply. -/
def next (b : Bench) : Except Failure (Option Token) × Bench :=
  let response := b.supply.next b.arena
  (response.result,
    { b with arena := response.arena, supply := response.supply, journal := b.journal ++ response.events.toArray })

/-- Makes a node. -/
def create (b : Bench) (node : Node) : NodeId × Bench :=
  (b.arena.nextId, { b with arena := b.arena.push node })

/-- Records a root in the place of any other. -/
def record (b : Bench) (root : NodeId) : Bench :=
  { b with root := some root }

theorem entries_next (b : Bench) : b.next.2.supply.entries = b.supply.entries.tail :=
  Supply.entries_next b.supply b.arena

/-- Takes the tokens that are left off the supply, each with its span, behind those already taken. -/
def drain (taken : Array (Token × Span)) (b : Bench) : Except Failure (List (Token × Span)) × Bench :=
  match _h : b.next with
  | (.ok (some t), b') => drain (taken.push (t, b'.supply.span)) b'
  | (.ok none, b') => (.ok taken.toList, b')
  | (.error f, b') => (.error f, b')
termination_by b.supply.entries.length
decreasing_by
  have hne : b.supply.entries ≠ [] := fun hn => by
    have := (Supply.result_next_eq_ok_none_iff b.supply b.arena).2 hn
    simp_all [next]
  have htail : b'.supply.entries = b.supply.entries.tail := by rw [← entries_next, _h]
  have := List.length_pos_iff.2 hne
  rw [htail, List.length_tail]
  omega

/-- Where the position among tokens is in the source: the start of its token, or the end of the last one. -/
def offsetAt (spans : List Span) (position : Nat) : Nat :=
  match spans[position]? with
  | some span => span.start
  | none => (spans.getLast?.map Span.stop).getD 0

/-- Reads the tokens that are left as a program that nests no deeper than the limit. -/
def readProgram (b : Bench) (limit : Nat) : Except Failure Unit × Bench :=
  match b.drain #[] with
  | (.error f, b) => (.error f, b)
  | (.ok taken, b) =>
    match Nesting.start.firstTooDeep limit (taken.map fun (t, span) => (t.kind, span)) with
    | some span => (.error (.tooDeep span.start limit), b)
    | none =>
      match Grammar.read (taken.map Prod.fst).toArray b.arena with
      | (.program root, arena) => (.ok (), { b with arena, root := some root })
      | (.stuck position expected, arena) =>
        (.error (.unexpected (offsetAt (taken.map Prod.snd) position) (Class.describe expected)), { b with arena })

/-! ## Breaks -/

/-- Goes on with a scan behind the end of the supply. -/
def refill (b : Bench) (scan : List (Except Failure Lexeme)) (later : List (Break × List (Except Failure Lexeme))) :
    Bench :=
  { b with supply := { Supply.ofScan b.supply.policy scan with span := b.supply.span }, later }

/-- What the next request for a token comes to. -/
def request (b : Bench) : Ending (Option Token) × Bench :=
  match b.supply.entries, b.later with
  | [], (.pause, scan) :: later => (.returned (.ok none), b.refill scan later)
  | [], (.panic reason, scan) :: later => (.aborted reason, b.refill scan later)
  | _, _ => let (answer, b) := b.next; (.returned answer, b)

/-- What reading a program comes to: the grammar is not run if its tokens end in a panic. -/
def requestProgram (b : Bench) (limit : Nat) : Ending Unit × Bench :=
  let (outcome, after) := b.readProgram limit
  match b.later with
  | [] => (.returned outcome, after)
  | (stop, scan) :: later =>
    match b.drain #[], stop with
    | (.error _, _), _ => (.returned outcome, after)
    | (.ok _, _), .pause => (.returned outcome, after.refill scan later)
    | (.ok _, b), .panic reason => (.aborted reason, b.refill scan later)

end Bench

end Formula
