import Formula.Proofs.Engine.Descent
import Formula.Proofs.Session.Call

/-!
# The nodes of a session

Whichever way a call ends, it gives the arena back with the nodes that were made during the call behind those it had,
in order (`Makes.arena_eq`). So the arenas of a session extend each other (`extends_calls`), and every id keeps its
node. It keeps its leaves and its rendering too if no walk from it comes upon an id that the arena has yet to hand out.
There is none as long as engines refer back, for then the arena descends (`descends_calls`).
-/

namespace Formula.Session

variable {s : Session} {c : Call} {cs : List Call} {nodes nodes' : List Node}

/-! ## One call -/

/-- Every exit of a parse gives back the arena of the bench. -/
theorem arena_parseWith (s : Session) (lexer : Lexer) (engine : Engine (Ending Unit × Unit)) :
    (s.parseWith lexer engine).2.2.arena = (engine.run (s.attach lexer).2).2.arena := by
  rcases h : engine.run (s.attach lexer).2 with ⟨⟨outcome | reason, x⟩, b⟩
  · rw [parseWith_of_returned h]
    rfl
  · rw [parseWith_of_aborted h]
    rfl

theorem exists_makes (s : Session) (c : Call) : ∃ nodes, s.Makes c nodes := by
  unfold Makes
  cases s.task c with
  | run lexer engine => exact engine.exists_makes (s.attach lexer).2
  | refuse cause | panic reason => exact ⟨[], rfl⟩

theorem arena_call_of_refuse {cause : ReadError} (h : s.task c = .refuse cause) : (s.call c).2.arena = s.arena := by
  rw [call_of_refuse h]
  rfl

/-- A call puts the nodes it makes behind those that are there. -/
theorem Makes.arena_eq (h : s.Makes c nodes) : (s.call c).2.arena = s.arena.append nodes := by
  rw [Makes] at h
  cases htask : s.task c with
  | run lexer engine =>
    rw [htask] at h
    rw [call_of_run htask]
    exact (s.arena_parseWith lexer engine).trans (Engine.Makes.arena_eq h)
  | refuse cause =>
    rw [htask] at h
    rw [show nodes = [] from h, arena_call_of_refuse htask, Arena.append_nil]
  | panic reason =>
    rw [htask] at h
    rw [show nodes = [] from h, call_of_panic htask, Arena.append_nil]

theorem Makes.unique (h : s.Makes c nodes) (h' : s.Makes c nodes') : nodes = nodes' :=
  Arena.append_injective s.arena (h.arena_eq.symm.trans h'.arena_eq)

/-! ## Calls that refer back -/

/-- The nodes that the engine of a call asks for refer only to ids that the arena has handed out by then or that are of
other arenas. -/
def RefersBack (s : Session) (c : Call) : Prop :=
  match s.task c with
  | .run lexer engine => engine.RefersBack (s.attach lexer).2
  | _ => True

/-- Each of the calls in turn refers back. -/
def ReferBack (s : Session) : List Call → Prop
  | [] => True
  | c :: cs => s.RefersBack c ∧ (s.call c).2.ReferBack cs

/-- A lexer has no finished tokens in store. -/
theorem token_notMem_store_attach (s : Session) (lexer : Lexer) (t : Token) (span : Span) :
    .token t span ∉ (s.attach lexer).2.store := by
  have hscan (es : List (Except Failure Lexeme)) : .token t span ∉ (Supply.ofScan s.options.policy es).entries := by
    intro hmem
    obtain ⟨f | l, -, he⟩ := List.mem_map.mp hmem <;> cases he
  intro hmem
  rcases List.mem_append.mp hmem with hmem | hmem
  · exact hscan lexer.scan hmem
  · obtain ⟨p, -, hmem⟩ := List.mem_flatMap.mp hmem
    exact hscan p.2 hmem

theorem safe_attach (h : s.arena.Descends) (lexer : Lexer) : (s.attach lexer).2.Safe :=
  ⟨h, fun {t span _} ht _ => absurd ht (s.token_notMem_store_attach lexer t span)⟩

theorem descends_call (h : s.arena.Descends) (hc : s.RefersBack c) : (s.call c).2.arena.Descends := by
  rw [RefersBack] at hc
  cases htask : s.task c with
  | run lexer engine =>
    rw [htask] at hc
    rw [call_of_run htask]
    show (s.parseWith lexer engine).2.2.arena.Descends
    rw [arena_parseWith]
    exact (engine.safe_run hc (safe_attach h lexer)).descends
  | refuse cause => rwa [arena_call_of_refuse htask]
  | panic reason => rwa [call_of_panic htask]

theorem descends_calls (h : s.arena.Descends) (hcs : s.ReferBack cs) : (s.calls cs).arena.Descends := by
  induction cs generalizing s with
  | nil => exact h
  | cons c cs ih => exact ih (descends_call h hcs.1) hcs.2

/-! ## Any calls -/

theorem extends_call (s : Session) (c : Call) : s.arena.Extends (s.call c).2.arena := by
  obtain ⟨nodes, h⟩ := s.exists_makes c
  exact ⟨nodes, h.arena_eq⟩

theorem extends_calls (s : Session) (cs : List Call) : s.arena.Extends (s.calls cs).arena := by
  induction cs generalizing s with
  | nil => exact s.arena.extends_refl
  | cons c cs ih => exact (s.extends_call c).trans (ih (s.call c).2)

/-- After any calls, a further one makes nodes that are found behind those before it, in the order in which they were
made, and none if its source cannot be had. More calls after that change nothing about the ids there were: each keeps
its node, and one that means nothing goes on to mean nothing. The walks from it end, and give the same leaves and the
same rendering as before, if they come upon nothing but nodes and ids of other arenas. That is so for every id if the
engines have no ids but those that were handed out, by the arena or by others. -/
theorem calls_keep (options : Options) (cs : List Call) :
    let s := (new options).calls cs
    (∀ c, ∃! nodes, s.Makes c nodes) ∧
    (∀ c nodes, s.Makes c nodes → (s.call c).2.arena = s.arena.append nodes ∧
      ∀ k, (s.call c).2.arena.node? ⟨s.arena.id, s.arena.size + k⟩ = nodes[k]?) ∧
    (∀ c cause, s.task c = .refuse cause → (s.call c).2.arena = s.arena) ∧
    (∀ c reason, s.task c = .panic reason → (s.call c).2.arena = s.arena) ∧
    (∀ later id, s.arena.IsOld id → (s.calls later).arena.node? id = s.arena.node? id) ∧
    (∀ later id, s.arena.Founded id → s.arena.SameWalks (s.calls later).arena id) ∧
    ((new options).ReferBack cs → ∀ later id, s.arena.IsOld id → s.arena.SameWalks (s.calls later).arena id) := by
  intro s
  refine ⟨fun c => ?_, fun c nodes h => ⟨h.arena_eq, fun k => ?_⟩, fun c cause h => arena_call_of_refuse h,
    fun c reason h => ?_, fun later id hid => (s.extends_calls later).node?_of_isOld hid,
    fun later id hid => hid.sameWalks (s.extends_calls later), fun hback later id hid => ?_⟩
  · obtain ⟨nodes, h⟩ := s.exists_makes c
    exact ⟨nodes, h, fun nodes' h' => h'.unique h⟩
  · rw [h.arena_eq]
    exact s.arena.node?_append_size_add nodes k
  · rw [call_of_panic h]
  · have hdescends : s.arena.Descends := descends_calls (Arena.descends_empty 0) hback
    exact (hdescends.founded hid).sameWalks (s.extends_calls later)

/-- An engine puts a sum that was read before into a sequence, with an id of another arena, which dangles before and
after the next node is made. -/
theorem calls_keep_dangling :
    let cs := [Call.source "a + 1", .engine ⟨[], []⟩
      (.create (.sequence [⟨0, 2⟩, ⟨7, 4⟩]) fun root => .record root (.done (.returned (.ok ()), ())))]
    let s := (new {}).calls cs
    (new {}).ReferBack cs ∧ (s.calls [.source "b"]).root = some ⟨0, 4⟩ ∧
      s.arena.render? ⟨0, 3⟩ = some "(seq (+ a 1) <dangling>)" ∧
      (s.calls [.source "b"]).arena.render? ⟨0, 3⟩ = some "(seq (+ a 1) <dangling>)" := by
  intro cs s
  have hold : ∀ child ∈ (Node.sequence [⟨0, 2⟩, ⟨7, 4⟩]).children,
      ((new {}).calls [.source "a + 1"]).arena.IsOld child := by
    decide +kernel
  have hback : (new {}).ReferBack cs := ⟨trivial, ⟨hold, trivial⟩, trivial⟩
  obtain ⟨-, -, -, -, -, -, hwalks⟩ := calls_keep {} cs
  obtain ⟨-, text, -, hbefore, hafter⟩ := hwalks hback [.source "b"] ⟨0, 3⟩ (by decide +kernel)
  have htext : text = "(seq (+ a 1) <dangling>)" := by
    have hdescends : s.arena.Descends := descends_calls (Arena.descends_empty 0) hback
    have hrec := hdescends.formRecursion_render
    have hname : s.arena.node? ⟨0, 0⟩ = some (.identifier "a") := by decide +kernel
    have hone : s.arena.node? ⟨0, 1⟩ = some (.integer 1) := by decide +kernel
    have hsum : s.arena.node? ⟨0, 2⟩ = some (.binary .add ⟨0, 0⟩ ⟨0, 1⟩) := by decide +kernel
    have hall : s.arena.node? ⟨0, 3⟩ = some (.sequence [⟨0, 2⟩, ⟨7, 4⟩]) := by decide +kernel
    have hother : s.arena.node? ⟨7, 4⟩ = none := by decide +kernel
    have hrender : s.arena.render ⟨0, 3⟩ = text := by rw [Arena.render, hbefore, Option.getD_some]
    rw [← hrender, hrec, hall]
    simp only [hrec ⟨0, 2⟩, hrec ⟨0, 0⟩, hrec ⟨0, 1⟩, hrec ⟨7, 4⟩, hname, hone, hsum, hother, Node.isLeaf,
      Node.children, List.map, Arena.dangling]
    decide +kernel
  subst htext
  exact ⟨hback, by decide +kernel, hbefore, hafter⟩

end Formula.Session
