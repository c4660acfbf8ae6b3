import Formula.Proofs.Grammar.Depth
import Formula.Proofs.Grammar.Reading
import Formula.Proofs.Grammar.Simulation

/-!
# A root that is recorded while the grammar runs

`read` gives the root of a program as its value. Here the grammar records it by itself: the last action of a program
puts the root in a slot, whatever is in it, and nothing takes it out again, even if the rule should fail later or be
run once more. The slot ends up with the root of the program that is read, and is left alone where none is
(`perform_eq`): what stands behind the action cannot fail, so that the action has the effect of recording what the whole
rule matches (`recordingProgram_eq`). A second run is for tokens on which the first one has failed. It fails as well,
because what rules match does not depend on the nodes that are there.
-/

namespace Formula.Grammar

/-- A rule that may record a root on its way. -/
def Recorder (α : Type) : Type :=
  Array Token → Nat → Run × Option NodeId → Outcome α × Run × Option NodeId

namespace Recorder

variable {α β : Type}

/-- A rule that records nothing. -/
def ofRule (r : Rule α) : Recorder α := fun tokens i s =>
  let e := r tokens i s.1
  (e.1, e.2, s.2)

def bind (r : Recorder α) (f : α → Recorder β) : Recorder β := fun tokens i s =>
  match r tokens i s with
  | (.matched a j, s) => f a tokens j s
  | (.failed, s) => (.failed, s)
  | (.exhausted, s) => (.exhausted, s)

instance : Monad Recorder where
  pure a := ofRule (pure a)
  bind := bind

/-- Records a root in the place of any other. -/
def record (root : NodeId) : Recorder Unit := fun _ i s => (.matched () i, s.1, some root)

/-- The rule, and its value recorded where it matches. -/
def recordingValue (r : Rule NodeId) : Recorder NodeId := fun tokens i s =>
  match r tokens i s.1 with
  | (.matched root j, run) => (.matched root j, run, some root)
  | (o, run) => (o, run, s.2)

/-- To record the value of the last rule is to record the value of all. -/
theorem ofRule_bind_recordingValue (r : Rule α) (f : α → Rule NodeId) :
    (ofRule r >>= fun a => recordingValue (f a)) = recordingValue (r >>= f) := by
  funext tokens i s
  show bind (ofRule r) (fun a => recordingValue (f a)) tokens i s = _
  unfold bind ofRule
  rcases h : r tokens i s.1 with ⟨a | _ | _, run⟩
  · simp only [recordingValue, Rule.bind_matched f h]
  · simp only [recordingValue, Rule.bind_failed f h]
  · simp only [recordingValue, Rule.bind_exhausted f h]

/-- Nothing behind the action can fail. -/
theorem ofRule_bind_record (r : Rule NodeId) :
    (do let root ← ofRule r; record root; return root) = recordingValue r := by
  funext tokens i s
  show bind (ofRule r) (fun root => bind (record root) fun _ => ofRule (pure root)) tokens i s = _
  unfold bind ofRule recordingValue
  rcases r tokens i s.1 with ⟨root | _ | _, run⟩ <;> rfl

end Recorder

open Recorder

variable {tokens : Array Token} {a : Arena} {probe : Probe} {slot : Option NodeId}

/-- A program, with its root recorded as the last action. -/
def recordingProgram (expr : Rule NodeId) : Recorder NodeId := do
  let items ← ofRule (statements expr)
  ofRule (Rule.optional (Rule.symbol .semicolon))
  ofRule Rule.atEnd
  let root ← ofRule (rootOf items)
  record root
  return root

/-- The action is as good as recording what the rule for programs matches: on no other way is it come to. -/
theorem recordingProgram_eq (expr : Rule NodeId) : recordingProgram expr = recordingValue (program expr) := by
  simp only [recordingProgram, ofRule_bind_record, ofRule_bind_recordingValue]
  rfl

/-- Runs the grammar over tokens, with a slot for the root. -/
def recordingRun (tokens : Array Token) (arena : Arena) (probe : Probe) (slot : Option NodeId) :
    Outcome NodeId × Run × Option NodeId :=
  recordingProgram (expression tokens.size .sum) tokens 0 (⟨arena, probe⟩, slot)

/-- The value of an outcome that leaves no token over. -/
def complete? (tokens : Array Token) : Outcome NodeId → Option NodeId
  | .matched root j => if tokens.size ≤ j then some root else none
  | _ => none

/-- Reads tokens by a run that is for the program, and if it fails a second one that is for what was expected. There is
no reading if the second run does not fail. -/
def perform (tokens : Array Token) (arena : Arena) (slot : Option NodeId) : Option Reading × Arena × Option NodeId :=
  let first := recordingRun tokens arena (.locate 0) slot
  match complete? tokens first.1 with
  | some root => (some (.program root), first.2.1.arena, first.2.2)
  | none =>
    let position := first.2.1.probe.position
    let second := recordingRun tokens first.2.1.arena (.explain position []) first.2.2
    match complete? tokens second.1 with
    | some _ => (none, second.2.1.arena, second.2.2)
    | none => (some (.stuck position second.2.1.probe.expected), second.2.1.arena, second.2.2)

/-- The root that a reading leaves in a slot. -/
def Reading.recorded (slot : Option NodeId) : Reading → Option NodeId
  | program root => some root
  | stuck _ _ => slot

/-! ## The runs -/

/-- A program takes up all tokens. -/
theorem size_le_of_run_matched {root : NodeId} {j : Nat} {s : Run}
    (h : run tokens a probe = (.matched root j, s)) : tokens.size ≤ j := by
  have hmeets := recognizes_program (recognizes_expression tokens tokens.size).1 ⟨a, probe⟩
  obtain ⟨ss, hss⟩ := (meets_of_matched h).mp hmeets
  obtain ⟨s', hrun, -⟩ := (matches_program hss (Nat.le_refl _) ⟨a, probe⟩).exists_eq
  have heq := congrArg Prod.fst (h.symm.trans hrun)
  cases heq
  exact Nat.le_refl _

theorem recordingRun_of_matched {root : NodeId} {j : Nat} {s : Run} (h : run tokens a probe = (.matched root j, s)) :
    recordingRun tokens a probe slot = (.matched root j, s, some root) := by
  unfold run at h
  rw [recordingRun, recordingProgram_eq, recordingValue, h]

theorem recordingRun_of_failed {s : Run} (h : run tokens a probe = (.failed, s)) :
    recordingRun tokens a probe slot = (.failed, s, slot) := by
  unfold run at h
  rw [recordingRun, recordingProgram_eq, recordingValue, h]

/-- Tokens on which one run fails are tokens on which every run fails. -/
theorem run_failed_of_failed {s : Run} (h : run tokens a probe = (.failed, s)) (b : Arena) (probe' : Probe) :
    ∃ s', run tokens b probe' = (.failed, s') := by
  have hfollows := @Simulation.follows_run _ _ _ _ (simulation_true tokens) ⟨a, probe⟩ ⟨b, probe'⟩ trivial
  rw [h] at hfollows
  rcases hrun : run tokens b probe' with ⟨o, s'⟩
  rw [hrun] at hfollows
  cases hfollows
  exact ⟨s', rfl⟩

/-- There always is a reading, and it is that of the grammar. The slot has the root of the program that is read, or what
was in it before. -/
theorem perform_eq (tokens : Array Token) (a : Arena) (slot : Option NodeId) :
    perform tokens a slot = (some (read tokens a).1, (read tokens a).2, (read tokens a).1.recorded slot) := by
  rcases hfirst : run tokens a (.locate 0) with ⟨⟨root, j⟩ | _ | _, s⟩
  · rw [perform, recordingRun_of_matched hfirst, read, hfirst]
    simp [complete?, size_le_of_run_matched hfirst, Reading.recorded]
  · obtain ⟨s', hsecond⟩ := run_failed_of_failed hfirst s.arena (.explain s.probe.position [])
    rw [perform, recordingRun_of_failed hfirst, read, hfirst]
    simp only [complete?]
    rw [recordingRun_of_failed hsecond, hsecond]
    rfl
  · exact absurd (congrArg Prod.fst hfirst) (run_ne_exhausted tokens a (.locate 0))

end Formula.Grammar
