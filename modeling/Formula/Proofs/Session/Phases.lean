import Formula.Proofs.Session.Call
import Mathlib.Data.List.Induction

/-!
# The outcome that a session keeps

What a call comes to is decided by how its engine ends and by the roots that are recorded during the call: it gives the
last of them if the engine ends well, and else no root (`ending_call`). The session keeps that outcome and nothing of an
earlier one (`outcome_call`). Only a call whose reader panics leaves the session as it is, so after any calls its phase
and its root are those of the latest call that got past its reader (`calls_decided`).
-/

namespace Formula

/-- The root that a call gives. -/
def Ending.root? : Ending NodeId → Option NodeId
  | .returned (.ok root) => some root
  | _ => none

/-- The phase of a session after a call that ends so. -/
def Ending.phase (ending : Ending NodeId) : Phase :=
  if ending.root?.isSome then .completed else .failed

/-- What a call comes to whose engine ends so, with the root that was recorded last. -/
def Ending.withRoot (last : Option NodeId) : Ending Unit → Ending NodeId
  | .returned (.ok ()) => .returned (last.elim (.error .missingRoot) .ok)
  | .returned (.error f) => .returned (.error f)
  | .aborted reason => .aborted reason

theorem Ending.root?_eq_some_iff {ending : Ending NodeId} {root : NodeId} :
    ending.root? = some root ↔ ending = .returned (.ok root) := by
  constructor
  · intro h
    obtain (f | root') | reason := ending
    · cases h
    · rw [Option.some.inj h]
    · cases h
  · rintro rfl
    rfl

theorem Ending.eq_some_of_withRoot {ending : Ending Unit} {last : Option NodeId} {root : NodeId}
    (h : ending.withRoot last = .returned (.ok root)) : last = some root := by
  obtain (f | ⟨⟩) | reason := ending
  · cases h
  · cases last with
    | none => cases h
    | some last =>
      cases h
      rfl
  · cases h

namespace Session

variable {s : Session} {c : Call} {cs : List Call} {lexer : Lexer} {engine : Engine (Ending Unit × Unit)}

/-! ## One parse -/

/-- The bench of a parse starts without a root, so in the end it has the last one that was recorded. -/
theorem root_run_attach (s : Session) (lexer : Lexer) (engine : Engine (Ending Unit × Unit)) :
    (engine.run (s.attach lexer).2).2.root = (engine.records (s.attach lexer).2).getLast? := by
  rw [Engine.root_run]
  exact Option.or_none

/-- A parse comes to what its engine ends with, and has to have a root for an end without failure. -/
theorem ending_parseWith (s : Session) (lexer : Lexer) (engine : Engine (Ending Unit × Unit)) :
    (s.parseWith lexer engine).1 =
      (engine.run (s.attach lexer).2).1.1.withRoot (engine.records (s.attach lexer).2).getLast? := by
  rw [← root_run_attach]
  rcases h : engine.run (s.attach lexer).2 with ⟨⟨(f | ⟨⟩) | reason, x⟩, b⟩
  · rw [parseWith_of_returned h]
    rfl
  · rw [parseWith_of_returned h]
    rfl
  · rw [parseWith_of_aborted h]
    rfl

/-- Every exit of a parse leaves the root it gives, and none if it gives none. -/
theorem outcome_parseWith (s : Session) (lexer : Lexer) (engine : Engine (Ending Unit × Unit)) :
    (s.parseWith lexer engine).2.2.root = (s.parseWith lexer engine).1.root? ∧
      (s.parseWith lexer engine).2.2.phase = (s.parseWith lexer engine).1.phase ∧
      (s.parseWith lexer engine).2.2.options = s.options := by
  -- The session has no root since it was attached, so only an outcome with one sets it.
  rcases h : engine.run (s.attach lexer).2 with ⟨⟨(f | ⟨⟩) | reason, x⟩, b⟩
  · rw [parseWith_of_returned h]
    exact ⟨rfl, rfl, rfl⟩
  · rw [parseWith_of_returned h, conclude]
    cases b.root with
    | none => exact ⟨rfl, rfl, rfl⟩
    | some root => exact ⟨rfl, rfl, rfl⟩
  · -- Nothing has decided the phase yet; giving the arena back does.
    rw [parseWith_of_aborted h]
    exact ⟨rfl, rfl, rfl⟩

/-! ## One call -/

theorem options_call (s : Session) (c : Call) : (s.call c).2.options = s.options := by
  cases h : s.task c with
  | run lexer engine =>
    rw [call_of_run h]
    exact (s.outcome_parseWith lexer engine).2.2
  | refuse cause => rw [call_of_refuse h, refuse]
  | panic reason => rw [call_of_panic h]

/-- A call that gets past its reader leaves the root it gives, and none if it gives none. -/
theorem outcome_call (s : Session) (h : ¬ c.IsUnread) :
    (s.call c).2.root = (s.call c).1.root? ∧ (s.call c).2.phase = (s.call c).1.phase := by
  cases htask : s.task c with
  | run lexer engine =>
    rw [call_of_run htask]
    exact ⟨(s.outcome_parseWith lexer engine).1, (s.outcome_parseWith lexer engine).2.1⟩
  | refuse cause =>
    rw [call_of_refuse htask]
    exact ⟨rfl, rfl⟩
  | panic reason => exact absurd ⟨reason, task_eq_panic_iff.mp htask⟩ h

theorem root_parse (s : Session) (source : String) :
    (s.parse source).2.root = Ending.root? (.returned (s.parse source).1) :=
  (s.outcome_call (Call.not_isUnread_source source)).1

theorem phase_parse (s : Session) (source : String) :
    (s.parse source).2.phase = Ending.phase (.returned (s.parse source).1) :=
  (s.outcome_call (Call.not_isUnread_source source)).2

/-- A call comes to what its engine ends with, with the last root that was recorded during the call. -/
theorem ending_call {ending : Ending Unit} (h : s.ending? c = some ending) :
    (s.call c).1 = ending.withRoot (s.recorded c).getLast? := by
  rw [ending?] at h
  rw [recorded]
  cases htask : s.task c with
  | refuse cause | panic reason =>
    rw [htask] at h
    cases h
  | run lexer engine =>
    rw [htask] at h
    obtain rfl := Option.some.inj h
    rw [call_of_run htask]
    exact s.ending_parseWith lexer engine

/-- A root that a call gives was recorded last. -/
theorem getLast?_recorded {root : NodeId} (h : (s.call c).1 = .returned (.ok root)) :
    (s.recorded c).getLast? = some root := by
  cases htask : s.task c with
  | refuse cause =>
    rw [call_of_refuse htask] at h
    cases h
  | panic reason =>
    rw [call_of_panic htask] at h
    cases h
  | run lexer engine =>
    have hending : s.ending? c = some (engine.run (s.attach lexer).2).1.1 := by rw [ending?, htask]
    rw [ending_call hending] at h
    exact Ending.eq_some_of_withRoot h

/-- What a call comes to, and what the session keeps of it. -/
structure Decided (s : Session) (c : Call) : Prop where
  rooted (root : NodeId) : s.ending? c = some (.returned (.ok ())) → (s.recorded c).getLast? = some root →
    (s.call c).1 = .returned (.ok root)
  rootless : s.ending? c = some (.returned (.ok ())) → s.recorded c = [] →
    (s.call c).1 = .returned (.error .missingRoot)
  refused (f : Failure) : s.ending? c = some (.returned (.error f)) → (s.call c).1 = .returned (.error f)
  aborted (reason : String) : s.ending? c = some (.aborted reason) → (s.call c).1 = .aborted reason
  unreadable (cause : ReadError) : s.task c = .refuse cause → (s.call c).1 = .returned (.error (.unreadable cause))
  /-- The root is the last one that was recorded during this call. -/
  completed (root : NodeId) : (s.call c).1 = .returned (.ok root) →
    (s.call c).2.phase = .completed ∧ (s.call c).2.root = some root ∧ (s.recorded c).getLast? = some root
  /-- Whatever was recorded before a failure is forgotten. -/
  failed : (∀ root, (s.call c).1 ≠ .returned (.ok root)) → (s.call c).2.phase = .failed ∧ (s.call c).2.root = none

theorem decided (s : Session) (hc : ¬ c.IsUnread) : s.Decided c where
  rooted root h hlast := by
    rw [ending_call h, hlast]
    rfl
  rootless h hnil := by
    rw [ending_call h, hnil]
    rfl
  refused f h := ending_call h
  aborted reason h := ending_call h
  unreadable cause h := by rw [call_of_refuse h]
  completed root h := by
    obtain ⟨hroot, hphase⟩ := s.outcome_call hc
    rw [h] at hroot hphase
    exact ⟨hphase, hroot, getLast?_recorded h⟩
  failed h := by
    obtain ⟨hroot, hphase⟩ := s.outcome_call hc
    have hnone : (s.call c).1.root? = none :=
      Option.eq_none_iff_forall_ne_some.mpr fun root hr => h root (Ending.root?_eq_some_iff.mp hr)
    rw [Ending.phase, hnone] at hphase
    exact ⟨hphase, hroot.trans hnone⟩

/-! ## Any calls -/

/-- A session between two calls: it has a root exactly if it is completed. -/
structure Settled (s : Session) : Prop where
  phase_ne : s.phase ≠ .parsing
  root_iff : s.root.isSome ↔ s.phase = .completed

theorem settled_new (options : Options) : (new options).Settled := ⟨nofun, nofun, nofun⟩

/-- Whatever state it starts from, a call that gets past its reader settles the session, and it is not idle then. -/
theorem settled_call (s : Session) (h : ¬ c.IsUnread) : (s.call c).2.Settled ∧ (s.call c).2.phase ≠ .idle := by
  obtain ⟨hroot, hphase⟩ := s.outcome_call h
  refine ⟨⟨?_, ?_⟩, ?_⟩
  · rw [hphase, Ending.phase]
    split <;> nofun
  · rw [hroot, hphase, Ending.phase]
    split <;> simp_all
  · rw [hphase, Ending.phase]
    split <;> nofun

/-- Calls that do not get past their readers change nothing. -/
theorem calls_of_isUnread (s : Session) (h : ∀ c ∈ cs, c.IsUnread) : s.calls cs = s := by
  induction cs with
  | nil => rfl
  | cons c cs ih =>
    obtain ⟨hc, hcs⟩ := List.forall_mem_cons.mp h
    rw [calls, List.foldl_cons, call_of_isUnread hc]
    exact ih hcs

theorem settled_calls (options : Options) (cs : List Call) :
    ((new options).calls cs).Settled ∧ (((new options).calls cs).phase = .idle ↔ ∀ c ∈ cs, c.IsUnread) := by
  induction cs using List.reverseRecOn with
  | nil => exact ⟨settled_new options, fun _ => List.forall_mem_nil _, fun _ => rfl⟩
  | append_singleton cs c ih =>
    rw [calls_concat, List.forall_mem_append, List.forall_mem_singleton]
    by_cases hc : c.IsUnread
    · rw [call_of_isUnread hc, and_iff_left hc]
      exact ih
    · obtain ⟨hsettled, hphase⟩ := ((new options).calls cs).settled_call hc
      exact ⟨hsettled, iff_of_false hphase fun h => hc h.2⟩

theorem options_calls (options : Options) (cs : List Call) : ((new options).calls cs).options = options := by
  induction cs using List.reverseRecOn with
  | nil => rfl
  | append_singleton cs c ih => rw [calls_concat, options_call, ih]

/-- After any calls a session is settled. A further call whose reader panics leaves it as it is. Any other call is
decided by what happens during it alone: the session is completed exactly if the call gives a root, and it stays as the
call has left it until another one gets past its reader. So a session is idle as long as none has. -/
theorem calls_decided (options : Options) (cs : List Call) :
    let s := (new options).calls cs
    s.Settled ∧ s.options = options ∧ (s.phase = .idle ↔ ∀ c ∈ cs, c.IsUnread) ∧
    (∀ c reason, c.ReaderPanics reason → s.call c = (.aborted reason, s)) ∧
    ∀ c, ¬ c.IsUnread → s.Decided c ∧
      ((s.call c).2.phase = .completed ↔ ∃ root, (s.call c).1 = .returned (.ok root)) ∧
      ∀ unread, (∀ c' ∈ unread, c'.IsUnread) → s.calls (c :: unread) = (s.call c).2 := by
  intro s
  obtain ⟨hsettled, hidle⟩ := settled_calls options cs
  refine ⟨hsettled, options_calls options cs, hidle, fun c reason h => call_of_panic (task_eq_panic_iff.mpr h),
    fun c hc => ⟨s.decided hc, ⟨fun h => ?_, fun ⟨root, h⟩ => ((s.decided hc).completed root h).1⟩,
      fun unread hunread => calls_of_isUnread _ hunread⟩⟩
  obtain ⟨root, hroot⟩ := Option.isSome_iff_exists.mp ((s.settled_call hc).1.root_iff.mpr h)
  rw [(s.outcome_call hc).1] at hroot
  exact ⟨root, Ending.root?_eq_some_iff.mp hroot⟩

/-- A new session is still idle after a call whose reader panics, and one that has a root keeps it. The root of an
earlier parse becomes that of a later one if it is recorded again. -/
theorem calls_decided_unread :
    let lost := Call.deliveries [.bytes "y".toUTF8, .panic "lost"]
    let again := Call.engine ⟨[], []⟩ (.record ⟨0, 0⟩ (.done (.returned (.ok ()), ())))
    ((new {}).calls [lost]).phase = .idle ∧
    (((new {}).calls [.source "x"]).call lost).1 = .aborted "lost" ∧
    ((new {}).calls [.source "x", lost]).phase = .completed ∧
    ((new {}).calls [.source "x", lost]).root = some ⟨0, 0⟩ ∧
    ((new {}).calls [.source "x"]).root = some ⟨0, 0⟩ ∧
    ((new {}).calls [.source "x", again]).root = some ⟨0, 0⟩ := by
  intro lost again
  have hpanics : lost.ReaderPanics "lost" := .bytes (by decide) .panic
  refine ⟨by decide +kernel, ?_, by decide +kernel, by decide +kernel, by decide +kernel, by decide +kernel⟩
  rw [call_of_panic (task_eq_panic_iff.mpr hpanics)]

end Session

end Formula
