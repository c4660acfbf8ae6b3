import Formula.Engine
import Formula.Proofs.Bench.Request

/-!
# The roots that an engine records

`e.records b` lists the roots that the engine `e` records while it runs from the bench `b`, those that the grammar
records for it among them. The last one is the root in the end; only if there is none, the root is that of the start
(`root_run`).
-/

namespace Formula

namespace Bench

variable {b : Bench} {limit : Nat}

/-- The bench with another root, or none. -/
def withRoot (b : Bench) (root : Option NodeId) : Bench :=
  { b with root }

/-- The root of the program that is read from here, if one is. -/
def rootRead (b : Bench) (limit : Nat) : Option NodeId :=
  ((b.withRoot none).readProgram limit).2.root

/-- The root that the grammar records for a request, which it does only if it reads a program. -/
def rootRequested (b : Bench) (limit : Nat) : Option NodeId :=
  match (b.requestProgram limit).1 with
  | .returned _ => b.rootRead limit
  | .aborted _ => none

@[simp] theorem root_next (b : Bench) : b.next.2.root = b.root := rfl

theorem next_withRoot (b : Bench) (root : Option NodeId) :
    (b.withRoot root).next = (b.next.1, b.next.2.withRoot root) := rfl

/-- Taking tokens leaves the root alone. -/
theorem root_drain (taken : Array (Token × Span)) (b : Bench) : (b.drain taken).2.root = b.root := by
  fun_induction drain taken b with
  | case1 taken b t b' h ih => rw [ih, ← root_next b, h]
  | case2 taken b b' h => rw [← root_next b, h]
  | case3 taken b f b' h => rw [← root_next b, h]

/-- Taking tokens does not depend on the root. -/
theorem drain_withRoot (taken : Array (Token × Span)) (b : Bench) (root : Option NodeId) :
    (b.withRoot root).drain taken = ((b.drain taken).1, (b.drain taken).2.withRoot root) := by
  fun_induction drain taken b with
  | case1 taken b t b' h ih =>
    have hnext : (b.withRoot root).next = (.ok (some t), b'.withRoot root) := by rw [next_withRoot, h]
    rw [drain_some hnext]
    exact ih
  | case2 taken b b' h =>
    have hnext : (b.withRoot root).next = (.ok none, b'.withRoot root) := by rw [next_withRoot, h]
    rw [drain_none hnext]
  | case3 taken b f b' h =>
    have hnext : (b.withRoot root).next = (.error f, b'.withRoot root) := by rw [next_withRoot, h]
    rw [drain_error hnext]

/-- The root of what the grammar reads takes the place of any other. -/
theorem root_readProgram (b : Bench) (limit : Nat) :
    (b.readProgram limit).2.root = (b.rootRead limit).or b.root := by
  rw [rootRead, readProgram, readProgram, drain_withRoot, ← root_drain #[] b]
  rcases b.drain #[] with ⟨f | taken, b'⟩
  · rfl
  · simp only
    split
    · rfl
    · rw [show (b'.withRoot none).arena = b'.arena from rfl]
      rcases Grammar.read (taken.map Prod.fst).toArray b'.arena with ⟨root | ⟨position, expected⟩, a⟩ <;> rfl

theorem root_request (b : Bench) : b.request.2.root = b.root :=
  b.resumes_request.root_eq

theorem root_requestProgram (b : Bench) (limit : Nat) :
    (b.requestProgram limit).2.root = (b.rootRequested limit).or b.root := by
  rw [rootRequested]
  rcases b.resumes_requestProgram limit with ⟨hreturned, hresumes⟩ | ⟨⟨reason, haborted⟩, hresumes⟩
  · rw [hreturned, hresumes.root_eq]
    exact b.root_readProgram limit
  · rw [haborted, hresumes.root_eq]
    exact root_drain #[] b

end Bench

namespace Engine

variable {α : Type}

/-- The roots that the engine records from the bench on, in order. -/
def records : Engine α → Bench → List NodeId
  | done _, _ => []
  | next k, b => (k b.request.1).records b.request.2
  | create node k, b => (k (b.create node).1).records (b.create node).2
  | record root k, b => root :: k.records (b.record root)
  | look k, b => (k b.arena b.root b.supply.span).records b
  | readProgram limit k, b =>
    (b.rootRequested limit).toList ++ (k (b.requestProgram limit).1).records (b.requestProgram limit).2

/-- The last root that was recorded counts. -/
theorem root_run (e : Engine α) (b : Bench) : (e.run b).2.root = (e.records b).getLast?.or b.root := by
  induction e generalizing b with
  | done value => rfl
  | next k ih => rw [run, records, ih, Bench.root_request]
  | create node k ih => exact ih _ _
  | record root k ih =>
    rw [run, records, ih]
    cases k.records (b.record root) <;> simp [Bench.record, List.getLast?_cons]
  | look k ih => exact ih _ _ _ _
  | readProgram limit k ih =>
    rw [run, records, ih, Bench.root_requestProgram, List.getLast?_append, Option.or_assoc]
    cases b.rootRequested limit <;> rfl

end Engine

end Formula
