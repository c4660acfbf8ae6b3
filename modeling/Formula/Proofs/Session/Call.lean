import Formula.Proofs.Engine.Making
import Formula.Proofs.Engine.Records
import Formula.Proofs.Source.Delivery
import Formula.Session.Basic

/-!
# The calls of a session

A session is used through calls, each of which comes to its source in one of three ways. Two of them are the third with
the engine of the grammar, unless the source cannot be read (`call_of_run`, `call_of_refuse`) or its reader panics,
which leaves the session as it is (`call_of_panic`). `s.calls cs` is the session after the calls `cs`, whatever each of
them came to.
-/

namespace Formula

/-- A call of a session: to parse what is delivered, to parse a source, or to have an engine parse what a lexer
gives. -/
inductive Call
  | deliveries (deliveries : List Delivery)
  | source (source : String)
  | engine (lexer : Lexer) (engine : Engine (Ending Unit × Unit))

/-- What a call comes down to: an engine at work on what a lexer gives, unless the source cannot be had. -/
inductive Task
  | run (lexer : Lexer) (engine : Engine (Ending Unit × Unit))
  | refuse (cause : ReadError)
  | panic (reason : String)

/-- The source of the call has a reader, which panics before it is read. -/
def Call.ReaderPanics (reason : String) : Call → Prop
  | deliveries ds => Panics reason ds
  | source _ => False
  | engine _ _ => False

/-- The call does not get past its reader. -/
def Call.IsUnread (c : Call) : Prop :=
  ∃ reason, c.ReaderPanics reason

theorem Call.not_isUnread_source (text : String) : ¬ (source text).IsUnread :=
  fun ⟨_, h⟩ => h

namespace Session

/-- Carries out a call. -/
def call (s : Session) : Call → Ending NodeId × Session
  | .deliveries deliveries => s.parseDeliveries deliveries
  | .source source => let (result, s) := s.parse source; (.returned result, s)
  | .engine lexer engine => let (ending, _, s) := s.parseWith lexer engine; (ending, s)

/-- The session after calls, from the first on. -/
def calls (s : Session) (cs : List Call) : Session :=
  cs.foldl (fun s c => (s.call c).2) s

/-- What a call of the session comes down to. -/
def task (s : Session) : Call → Task
  | .deliveries deliveries =>
    match Delivery.gather .empty deliveries with
    | .ok contents =>
      match contents >>= textOfBytes with
      | .ok source => .run (.ofSource source) (.grammar s.options.maxNesting)
      | .error cause => .refuse cause
    | .error reason => .panic reason
  | .source source => .run (.ofSource source) (.grammar s.options.maxNesting)
  | .engine lexer engine => .run lexer engine

/-- How the engine of a call ends; there is none if the source cannot be had. -/
def ending? (s : Session) (c : Call) : Option (Ending Unit) :=
  match s.task c with
  | .run lexer engine => some (engine.run (s.attach lexer).2).1.1
  | _ => none

/-- The roots that are recorded during a call, in order. -/
def recorded (s : Session) (c : Call) : List NodeId :=
  match s.task c with
  | .run lexer engine => engine.records (s.attach lexer).2
  | _ => []

/-- The nodes are those that are made during a call, in order. -/
def Makes (s : Session) (c : Call) (nodes : List Node) : Prop :=
  match s.task c with
  | .run lexer engine => engine.Makes (s.attach lexer).2 nodes
  | _ => nodes = []

variable {s : Session} {c : Call} {cs cs' : List Call}
variable {lexer : Lexer} {engine : Engine (Ending Unit × Unit)} {cause : ReadError} {reason : String}

theorem calls_append (s : Session) (cs cs' : List Call) : s.calls (cs ++ cs') = (s.calls cs).calls cs' :=
  List.foldl_append

theorem calls_concat (s : Session) (cs : List Call) (c : Call) : s.calls (cs ++ [c]) = ((s.calls cs).call c).2 :=
  calls_append s cs [c]

/-- A call is the task that it comes down to. -/
theorem call_eq (s : Session) (c : Call) : s.call c = match s.task c with
    | .run lexer engine => ((s.parseWith lexer engine).1, (s.parseWith lexer engine).2.2)
    | .refuse cause => (.returned (.error (.unreadable cause)), s.refuse)
    | .panic reason => (.aborted reason, s) := by
  cases c with
  | engine lexer engine => rfl
  | source source => rfl
  | deliveries ds =>
    rw [call, task, parseDeliveries]
    cases Delivery.gather .empty ds with
    | error reason => rfl
    | ok contents =>
      simp only [parseContents]
      cases contents >>= textOfBytes with
      | error cause => rfl
      | ok source => rfl

/-- A call is the parse of what its lexer gives by its engine. -/
theorem call_of_run (h : s.task c = .run lexer engine) :
    s.call c = ((s.parseWith lexer engine).1, (s.parseWith lexer engine).2.2) := by
  rw [call_eq, h]

/-- A source that cannot be read is refused. -/
theorem call_of_refuse (h : s.task c = .refuse cause) :
    s.call c = (.returned (.error (.unreadable cause)), s.refuse) := by
  rw [call_eq, h]

/-- A reader that panics leaves the session as it is. -/
theorem call_of_panic (h : s.task c = .panic reason) : s.call c = (.aborted reason, s) := by
  rw [call_eq, h]

theorem task_eq_panic_iff : s.task c = .panic reason ↔ c.ReaderPanics reason := by
  cases c with
  | engine lexer engine => exact ⟨nofun, nofun⟩
  | source source => exact ⟨nofun, nofun⟩
  | deliveries deliveries =>
    rw [task, Call.ReaderPanics, ← Delivery.gather_eq_error_iff .empty]
    cases Delivery.gather .empty deliveries with
    | error reason' => rw [Task.panic.injEq, Except.error.injEq]
    | ok contents =>
      simp only
      split <;> exact ⟨nofun, nofun⟩

theorem call_of_isUnread (h : c.IsUnread) : (s.call c).2 = s := by
  obtain ⟨reason, h⟩ := h
  rw [call_of_panic (task_eq_panic_iff.mpr h)]

/-- A parse by an engine that comes to an outcome. -/
theorem parseWith_of_returned {outcome : Except Failure Unit} {x : Unit} {b : Bench}
    (h : engine.run (s.attach lexer).2 = ((.returned outcome, x), b)) :
    s.parseWith lexer engine =
      (.returned ((s.attach lexer).1.conclude b outcome).1, x, ((s.attach lexer).1.conclude b outcome).2) := by
  simp only [parseWith, h]

/-- A parse by an engine that breaks off. -/
theorem parseWith_of_aborted {reason : String} {x : Unit} {b : Bench}
    (h : engine.run (s.attach lexer).2 = ((.aborted reason, x), b)) :
    s.parseWith lexer engine = (.aborted reason, x, (s.attach lexer).1.detach b) := by
  simp only [parseWith, h]

end Session

end Formula
