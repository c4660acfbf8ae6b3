import Formula.Proofs.Engine.Events
import Formula.Proofs.Session.Nodes
import Formula.Proofs.Session.Phases

/-!
# The journal of a session

Each call whose source can be read puts a passage behind the journal: its beginning, what is noted for the tokens that
its engine gets, its outcome if it comes to one, and its end (`journal_call`). A line is written for each of these
(`Lexeme.map_line_noted`, `Ending.map_line_events`). So beginnings and ends alternate in the journal of any calls, and
each parse begins with as many nodes as the one before it ended with (`journal_calls`).
-/

namespace Formula

/-- What is noted about the ending of a call that leaves the arena so: its root, its failure, or nothing if it broke
off. -/
def Ending.events (arena : Arena) : Ending NodeId → List Event
  | .returned (.ok root) => [.recorded root arena]
  | .returned (.error f) => [.failed f]
  | .aborted _ => []

/-! ## Lines -/

/-- What is written for the token of a lexeme: what it was converted from, if that is only a part of it, and the token
itself. -/
def Lexeme.noteTexts (policy : Policy) (l : Lexeme) (t : Token) : List String :=
  let token := "TRACE lang::bridge: token kind=" ++ t.kind.name ++ " lexeme=" ++ Text.quote l.text ++ " payload=" ++
    Text.optional (t.payload.map NodeId.text)
  match l.fallback? policy with
  | some leaf =>
    ["WARN lang::bridge: numeric literal converted from its prefix lexeme=" ++ Text.quote l.text ++ " value=" ++
      leaf.label, token]
  | none => [token]

/-- What is written for the ending of a call that leaves the arena so. -/
def Ending.noteTexts (arena : Arena) : Ending NodeId → List String
  | .returned (.ok root) => ["DEBUG lang::driver: root recorded root=" ++ arena.render root]
  | .returned (.error f) => ["DEBUG lang::driver: parse failed error=" ++ f.message]
  | .aborted _ => []

namespace Event

theorem line_attached (nodes : Nat) :
    (attached nodes).line = "DEBUG lang::driver: lexer attached nodes=" ++ toString nodes := by
  show "DEBUG lang::driver: " ++ ("lexer attached nodes=" ++ toString nodes) = _
  simp [← String.append_assoc]

theorem line_detached (nodes : Nat) (phase : Phase) : (detached nodes phase).line =
    "DEBUG lang::driver: lexer detached nodes=" ++ toString nodes ++ " state=" ++ phase.name := by
  show "DEBUG lang::driver: " ++ ("lexer detached nodes=" ++ toString nodes ++ " state=" ++ phase.name) = _
  simp [← String.append_assoc]

theorem line_token (t : Token) (lexeme : String) : (token t lexeme).line =
    "TRACE lang::bridge: token kind=" ++ t.kind.name ++ " lexeme=" ++ Text.quote lexeme ++ " payload=" ++
      Text.optional (t.payload.map NodeId.text) := by
  show "TRACE lang::bridge: " ++ ("token kind=" ++ t.kind.name ++ " lexeme=" ++ Text.quote lexeme ++ " payload=" ++
    Text.optional (t.payload.map NodeId.text)) = _
  simp [← String.append_assoc]

theorem line_converted (lexeme : String) (leaf : Node) : (converted lexeme leaf).line =
    "WARN lang::bridge: numeric literal converted from its prefix lexeme=" ++ Text.quote lexeme ++ " value=" ++
      leaf.label := by
  show "WARN lang::bridge: " ++
    ("numeric literal converted from its prefix lexeme=" ++ Text.quote lexeme ++ " value=" ++ leaf.label) = _
  simp [← String.append_assoc]

theorem line_recorded (root : NodeId) (arena : Arena) :
    (recorded root arena).line = "DEBUG lang::driver: root recorded root=" ++ arena.render root := by
  show "DEBUG lang::driver: " ++ ("root recorded root=" ++ arena.render root) = _
  simp [← String.append_assoc]

theorem line_failed (f : Failure) : (failed f).line = "DEBUG lang::driver: parse failed error=" ++ f.message := by
  show "DEBUG lang::driver: " ++ ("parse failed error=" ++ f.message) = _
  simp [← String.append_assoc]

end Event

theorem Lexeme.map_line_noted (policy : Policy) (l : Lexeme) (t : Token) :
    (l.noted policy t).map Event.line = l.noteTexts policy t := by
  unfold noted noteTexts
  cases l.fallback? policy with
  | none => rw [List.map_singleton, Event.line_token]
  | some leaf => rw [List.map_cons, List.map_singleton, Event.line_converted, Event.line_token]

theorem Ending.map_line_events (arena : Arena) (ending : Ending NodeId) :
    (ending.events arena).map Event.line = ending.noteTexts arena := by
  obtain (f | root) | reason := ending
  · rw [events, noteTexts, List.map_singleton, Event.line_failed]
  · rw [events, noteTexts, List.map_singleton, Event.line_recorded]
  · rfl

namespace Event

/-- Whether a parse begins or ends with the event. -/
def isBoundary : Event → Bool
  | attached _ | detached .. => true
  | _ => false

/-- The boundaries of parses one after the other; each begins with as many nodes as the one before it ended with. -/
inductive Bounds : Nat → List Event → Nat → Prop
  | nil (count : Nat) : Bounds count [] count
  | parse {first count count' : Nat} {phase : Phase} {events : List Event} : Bounds first events count →
      Bounds first (events ++ [.attached count, .detached count' phase]) count'

end Event

namespace Session

variable {s : Session} {c : Call} {cs : List Call}
variable {lexer : Lexer} {engine : Engine (Ending Unit × Unit)}

/-- The session notes the ending of a parse and then its end; before that, only the tokens are noted that the engine
gets. -/
theorem journal_parseWith (s : Session) (lexer : Lexer) (engine : Engine (Ending Unit × Unit)) :
    (s.parseWith lexer engine).2.2.journal.toList =
      s.journal.toList ++ [.attached s.arena.size] ++
        (engine.handed (s.attach lexer).2).flatMap (Supply.Entry.noted s.options.policy) ++
        (s.parseWith lexer engine).1.events (s.parseWith lexer engine).2.2.arena ++
        [.detached (s.parseWith lexer engine).2.2.arena.size (s.parseWith lexer engine).2.2.phase] := by
  have hattach : (s.attach lexer).2.journal.toList = s.journal.toList ++ [.attached s.arena.size] := Array.toList_push
  have hrun : (engine.run (s.attach lexer).2).2.journal.toList = s.journal.toList ++ [.attached s.arena.size] ++
      (engine.handed (s.attach lexer).2).flatMap (Supply.Entry.noted s.options.policy) :=
    hattach ▸ (engine.hands_run (s.attach lexer).2).journal_eq
  rcases h : engine.run (s.attach lexer).2 with ⟨⟨outcome | reason, x⟩, b⟩ <;> rw [h] at hrun
  · rw [parseWith_of_returned h, ← hrun, conclude, detach, Array.toList_push, Array.toList_push]
    rcases outcome.bind fun _ => b.root.elim (.error .missingRoot) .ok with f | root <;> rfl
  · rw [parseWith_of_aborted h, ← hrun, detach, Array.toList_push, Ending.events, List.append_nil]

/-- Every token that an engine gets in a session was made for a lexeme, and is of its kind. -/
theorem exists_handed_eq (s : Session) (lexer : Lexer) (engine : Engine (Ending Unit × Unit)) :
    ∃ taken : List (Lexeme × Token),
      engine.handed (s.attach lexer).2 = taken.map (fun p => (.lexeme p.1, p.2)) ∧
        ∀ p ∈ taken, p.2.kind = p.1.kind := by
  have hgives := (engine.hands_run (s.attach lexer).2).gives
  generalize engine.handed (s.attach lexer).2 = handed at hgives
  induction handed with
  | nil => exact ⟨[], rfl, List.forall_mem_nil _⟩
  | cons p handed ih =>
    obtain ⟨taken, rfl, hkinds⟩ := ih fun q hq => hgives q (List.mem_cons_of_mem p hq)
    obtain ⟨hmem, hp⟩ := hgives p List.mem_cons_self
    obtain ⟨entry, t⟩ := p
    cases entry with
    | lexeme l => exact ⟨(l, t) :: taken, rfl, List.forall_mem_cons.mpr ⟨hp, hkinds⟩⟩
    | token t' span => exact absurd hmem (s.token_notMem_store_attach lexer t' span)
    | failure f => exact hp.elim

/-- A call notes nothing if its source cannot be had. -/
theorem journal_call_of_unread (h : ∀ lexer engine, s.task c ≠ .run lexer engine) :
    (s.call c).2.journal = s.journal := by
  cases htask : s.task c with
  | run lexer engine => exact absurd htask (h lexer engine)
  | refuse cause =>
    rw [call_of_refuse htask]
    rfl
  | panic reason => rw [call_of_panic htask]

/-- A call that has an engine work notes its beginning, the tokens that are handed out, its outcome and its end. -/
theorem journal_call (h : s.task c = .run lexer engine) :
    ∃ taken : List (Lexeme × Token),
      engine.handed (s.attach lexer).2 = taken.map (fun p => (.lexeme p.1, p.2)) ∧
      (∀ p ∈ taken, p.2.kind = p.1.kind) ∧
      (s.call c).2.journal.toList =
        s.journal.toList ++ [.attached s.arena.size] ++
          taken.flatMap (fun p => p.1.noted s.options.policy p.2) ++
          (s.call c).1.events (s.call c).2.arena ++
          [.detached (s.call c).2.arena.size (s.call c).2.phase] := by
  obtain ⟨taken, htaken, hkinds⟩ := s.exists_handed_eq lexer engine
  refine ⟨taken, htaken, hkinds, ?_⟩
  rw [call_of_run h, journal_parseWith, htaken, List.flatMap_map]
  rfl

/-! ## Boundaries -/

theorem filter_isBoundary_noted (policy : Policy) (taken : List (Lexeme × Token)) :
    (taken.flatMap fun p => p.1.noted policy p.2).filter Event.isBoundary = [] := by
  rw [List.filter_flatMap, List.flatMap_eq_nil_iff]
  intro p _
  rw [Lexeme.noted]
  split <;> rfl

theorem filter_isBoundary_events (arena : Arena) (ending : Ending NodeId) :
    (ending.events arena).filter Event.isBoundary = [] := by
  obtain (f | root) | reason := ending <;> rfl

theorem bounds_calls (options : Options) (cs : List Call) :
    Event.Bounds 0 (((new options).calls cs).journal.toList.filter Event.isBoundary)
      ((new options).calls cs).arena.size := by
  induction cs using List.reverseRecOn with
  | nil => exact .nil 0
  | append_singleton cs c ih =>
    rw [calls_concat]
    generalize (new options).calls cs = s at ih
    cases h : s.task c with
    | refuse cause => rwa [call_of_refuse h]
    | panic reason => rwa [call_of_panic h]
    | run lexer engine =>
      obtain ⟨taken, -, -, hjournal⟩ := journal_call h
      rw [hjournal]
      simp only [List.filter_append, filter_isBoundary_noted, filter_isBoundary_events, List.append_assoc]
      exact ih.parse

/-- After any calls, beginnings and ends alternate in the journal, from a beginning without nodes on, and each parse
begins with as many nodes as the one before it ended with. A further call notes nothing if its source cannot be had.
Else it notes its beginning with the nodes there are, each token that its engine gets with its lexeme, and right before
it the number that was taken for a numeral that is none, then its root or its failure unless it breaks off, and in the
end the nodes and the phase that it leaves. The lines that are written for these say so. -/
theorem journal_calls (options : Options) (cs : List Call) :
    let s := (new options).calls cs
    Event.Bounds 0 (s.journal.toList.filter Event.isBoundary) s.arena.size ∧
    (∀ c, (∀ lexer engine, s.task c ≠ .run lexer engine) → (s.call c).2.journal = s.journal) ∧
    ∀ c lexer engine, s.task c = .run lexer engine →
      ∃ taken : List (Lexeme × Token),
        engine.handed (s.attach lexer).2 = taken.map (fun p => (.lexeme p.1, p.2)) ∧
        (∀ p ∈ taken, p.2.kind = p.1.kind) ∧
        (s.call c).2.journal.toList =
          s.journal.toList ++ [.attached s.arena.size] ++
            taken.flatMap (fun p => p.1.noted options.policy p.2) ++
            (s.call c).1.events (s.call c).2.arena ++
            [.detached (s.call c).2.arena.size (s.call c).2.phase] ∧
        (s.call c).2.journal.toList.map Event.line =
          s.journal.toList.map Event.line ++
            ["DEBUG lang::driver: lexer attached nodes=" ++ toString s.arena.size] ++
            taken.flatMap (fun p => p.1.noteTexts options.policy p.2) ++
            (s.call c).1.noteTexts (s.call c).2.arena ++
            ["DEBUG lang::driver: lexer detached nodes=" ++ toString (s.call c).2.arena.size ++ " state=" ++
              (s.call c).2.phase.name] := by
  intro s
  refine ⟨bounds_calls options cs, fun c h => journal_call_of_unread h, fun c lexer engine h => ?_⟩
  obtain ⟨taken, htaken, hkinds, hjournal⟩ := journal_call h
  rw [options_calls options cs] at hjournal
  refine ⟨taken, htaken, hkinds, hjournal, ?_⟩
  rw [hjournal]
  simp only [List.map_append, List.map_flatMap, List.map_singleton, Lexeme.map_line_noted, Ending.map_line_events,
    Event.line_attached, Event.line_detached]

end Session

end Formula
