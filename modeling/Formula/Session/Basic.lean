import Formula.Engine
import Formula.Lexeme.Scan
import Formula.Session.Options
import Formula.Source.Delivery

/-!
# Sessions

A session owns an arena through any number of parses and keeps the outcome of the latest one. For each parse it lends
its arena to a bench and takes it back however the parse ends, so no node is ever lost. It has a root exactly while
its phase is `completed`.
-/

namespace Formula

/-- The lexer of a source: it gives the scan and is at its end. -/
def Lexer.ofSource (source : String) : Lexer :=
  ⟨Formula.scan source, []⟩

/-- An arena with the outcome of the latest parse into it, and all that was noted so far. -/
structure Session where
  options : Options
  arena : Arena
  root : Option NodeId
  phase : Phase
  journal : Array Event

namespace Session

/-- A session without any node. -/
def new (options : Options) : Session :=
  { options, arena := .empty 0, root := none, phase := .idle, journal := #[] }

/-- The session while it parses, without the arena that it lends, and the bench for a parse of what a lexer gives. -/
def attach (s : Session) (lexer : Lexer) : Session × Bench :=
  ({ s with arena := .empty s.arena.id, root := none, phase := .parsing, journal := #[] },
    { arena := s.arena
      root := none
      supply := .ofScan s.options.policy lexer.scan
      journal := s.journal.push (.attached s.arena.size)
      later := lexer.later })

/-- Keeps the outcome of a parse. -/
def finish (s : Session) : Except Failure NodeId → Session
  | .ok root => { s with root := some root, phase := .completed }
  | .error _ => { s with phase := .failed }

/-- What is noted about the outcome of a parse that left the arena so. -/
def outcomeEvent (arena : Arena) : Except Failure NodeId → Event
  | .ok root => .recorded root arena
  | .error f => .failed f

/-- Takes the arena back from the bench. A parse without an outcome has failed. -/
def detach (s : Session) (b : Bench) : Session :=
  let phase := if s.phase = .parsing then .failed else s.phase
  { s with arena := b.arena, phase, journal := b.journal.push (.detached b.arena.size phase) }

/-- Ends a parse that came to an outcome: it has to have recorded a root. -/
def conclude (s : Session) (b : Bench) (outcome : Except Failure Unit) : Except Failure NodeId × Session :=
  let result := outcome.bind fun _ => b.root.elim (.error .missingRoot) .ok
  (result, (s.finish result).detach { b with journal := b.journal.push (outcomeEvent b.arena result) })

/-- Lets an engine parse what a lexer gives; what the engine gives beside its ending is passed on. -/
def parseWith {ω : Type} (s : Session) (lexer : Lexer) (engine : Engine (Ending Unit × ω)) :
    Ending NodeId × ω × Session :=
  let (s, b) := s.attach lexer
  match engine.run b with
  | ((.returned outcome, extra), b) =>
    let (result, s) := s.conclude b outcome
    (.returned result, extra, s)
  | ((.aborted reason, extra), b) => (.aborted reason, extra, s.detach b)

/-- Parses a source with the grammar. -/
def parse (s : Session) (source : String) : Except Failure NodeId × Session :=
  let (s, b) := s.attach (.ofSource source)
  let (outcome, b) := b.readProgram s.options.maxNesting
  s.conclude b outcome

/-- Parsing a source is parsing its scan with the engine of the grammar. -/
theorem parseWith_grammar (s : Session) (source : String) :
    s.parseWith (.ofSource source) (.grammar s.options.maxNesting) =
      (.returned (s.parse source).1, (), (s.parse source).2) := rfl

/-- The session after a source that could not be read: nothing is parsed. -/
def refuse (s : Session) : Session :=
  { s with root := none, phase := .failed }

/-- Parses the text that the bytes are, if they could be had. -/
def parseContents (s : Session) (contents : Except ReadError ByteArray) : Except Failure NodeId × Session :=
  match contents >>= textOfBytes with
  | .ok source => s.parse source
  | .error cause => (.error (.unreadable cause), s.refuse)

/-- Parses a source that is delivered in pieces. A reader that panics leaves the session as it is. -/
def parseDeliveries (s : Session) (deliveries : List Delivery) : Ending NodeId × Session :=
  match Delivery.gather .empty deliveries with
  | .ok contents => let (result, s) := s.parseContents contents; (.returned result, s)
  | .error reason => (.aborted reason, s)

end Session

end Formula
