import Formula.Engine
import Formula.Proofs.Bench.Request
import Formula.Proofs.Grammar.Making

/-!
# The nodes that an engine makes

`e.Makes b nodes` follows the requests of the engine `e` from the bench `b` on and lists the nodes that are made for
them, in order: a leaf for a token that is handed out, a node that the engine asks for, and all that the grammar makes.
Every engine makes such a list (`exists_makes`), and the arena has it behind the nodes that were there
(`Makes.arena_eq`).
-/

namespace Formula

/-- What the next request makes: a leaf, if it is for a lexeme that converts to one. -/
def Supply.leaves (s : Supply) : List Node :=
  match s.entries with
  | .lexeme l :: _ => (l.leaf? s.policy).toList
  | _ => []

theorem Supply.arena_next (s : Supply) (a : Arena) : (s.next a).arena = a.append s.leaves := by
  unfold next leaves
  split
  · rename_i h
    simp [h]
  · rename_i h
    simp [h]
  · rename_i h
    simp [h]
  · rename_i l rest h
    rw [h]
    simp only [Lexeme.leaf?]
    cases l.leaf s.policy with
    | none => simp
    | some conversion =>
      cases hvalue : conversion.value? with
      | none => simp [hvalue]
      | some node => simp [hvalue, Arena.push_eq_append]

namespace Bench

/-- The leaves that are made while tokens are taken, up to the request that gives none. -/
inductive DrainMakes : Bench → List Node → Prop
  | more {b : Bench} {t : Token} {nodes : List Node} :
      b.next.1 = .ok (some t) → DrainMakes b.next.2 nodes → DrainMakes b (b.supply.leaves ++ nodes)
  | last {b : Bench} : (∀ t, b.next.1 ≠ .ok (some t)) → DrainMakes b b.supply.leaves

/-- What is made for a program: the leaves, and behind them what the grammar makes, if it is run. -/
inductive ProgramMakes (b : Bench) (limit : Nat) : List Node → Prop
  | fault {f : Failure} {b' : Bench} {nodes : List Node} :
      b.drain #[] = (.error f, b') → b.DrainMakes nodes → ProgramMakes b limit nodes
  | tooDeep {l : List (Token × Span)} {b' : Bench} {span : Span} {nodes : List Node} : b.drain #[] = (.ok l, b') →
      Nesting.start.firstTooDeep limit (l.map fun (t, span) => (t.kind, span)) = some span →
      b.DrainMakes nodes → ProgramMakes b limit nodes
  | read {l : List (Token × Span)} {b' : Bench} {nodes nodes' : List Node} : b.drain #[] = (.ok l, b') →
      Nesting.start.firstTooDeep limit (l.map fun (t, span) => (t.kind, span)) = none →
      b.DrainMakes nodes → Grammar.ReadMakes (l.map Prod.fst).toArray b'.arena nodes' →
      ProgramMakes b limit (nodes ++ nodes')

/-- What is made for a request to read a program: only the leaves, if the lexer panics behind them. -/
inductive RequestMakes (b : Bench) (limit : Nat) : List Node → Prop
  | returned {outcome : Except Failure Unit} {nodes : List Node} : (b.requestProgram limit).1 = .returned outcome →
      b.ProgramMakes limit nodes → RequestMakes b limit nodes
  | aborted {reason : String} {nodes : List Node} : (b.requestProgram limit).1 = .aborted reason →
      b.DrainMakes nodes → RequestMakes b limit nodes

variable {b : Bench} {limit : Nat} {nodes : List Node}

theorem arena_next (b : Bench) : b.next.2.arena = b.arena.append b.supply.leaves :=
  b.supply.arena_next b.arena

theorem arena_request (b : Bench) : b.request.2.arena = b.arena.append b.supply.leaves :=
  b.resumes_request.arena_eq.trans b.arena_next

theorem DrainMakes.arena_eq (h : b.DrainMakes nodes) (taken : Array (Token × Span)) :
    (b.drain taken).2.arena = b.arena.append nodes := by
  induction h generalizing taken with
  | @more b t nodes ht _ ih =>
    have hnext : b.next = (.ok (some t), b.next.2) := Prod.ext ht rfl
    rw [drain_some hnext, ih, arena_next, Arena.append_append]
  | @last b hlast =>
    rw [← arena_next]
    rcases hnext : b.next with ⟨f | _ | t, b'⟩
    · rw [drain_error hnext]
    · rw [drain_none hnext]
    · exact absurd (by rw [hnext]) (hlast t)

theorem exists_drainMakes (taken : Array (Token × Span)) (b : Bench) : ∃ nodes, b.DrainMakes nodes := by
  fun_induction drain taken b with
  | case1 taken b t b' h ih =>
    obtain ⟨nodes, hnodes⟩ := ih
    exact ⟨_, .more (by rw [h]) (by rw [h]; exact hnodes)⟩
  | case2 taken b b' h | case3 taken b f b' h =>
    refine ⟨_, .last fun t ht => ?_⟩
    rw [h] at ht
    cases ht

theorem ProgramMakes.arena_eq (h : b.ProgramMakes limit nodes) :
    (b.readProgram limit).2.arena = b.arena.append nodes := by
  cases h with
  | fault hdrain hnodes => rw [← hnodes.arena_eq #[], readProgram, hdrain]
  | tooDeep hdrain hn hnodes =>
    rw [← hnodes.arena_eq #[], readProgram, hdrain]
    simp only [hn]
  | @read l b' nodes nodes' hdrain hn hnodes hread =>
    have harena := hnodes.arena_eq #[]
    rw [hdrain] at harena
    rw [← Arena.append_append, ← harena, ← hread.arena_eq, readProgram, hdrain]
    simp only [hn]
    rcases Grammar.read (l.map Prod.fst).toArray b'.arena with ⟨root | ⟨position, expected⟩, a⟩ <;> rfl

theorem exists_programMakes (b : Bench) (limit : Nat) : ∃ nodes, b.ProgramMakes limit nodes := by
  obtain ⟨nodes, hnodes⟩ := exists_drainMakes #[] b
  rcases hdrain : b.drain #[] with ⟨f | l, b'⟩
  · exact ⟨_, .fault hdrain hnodes⟩
  · cases hn : Nesting.start.firstTooDeep limit (l.map fun (t, span) => (t.kind, span)) with
    | some span => exact ⟨_, .tooDeep hdrain hn hnodes⟩
    | none =>
      obtain ⟨nodes', hnodes'⟩ := Grammar.exists_readMakes (l.map Prod.fst).toArray b'.arena
      exact ⟨_, .read hdrain hn hnodes hnodes'⟩

theorem RequestMakes.arena_eq (h : b.RequestMakes limit nodes) :
    (b.requestProgram limit).2.arena = b.arena.append nodes := by
  rcases b.resumes_requestProgram limit with ⟨hreturned, hresumes⟩ | ⟨⟨reason, haborted⟩, hresumes⟩ <;>
    rw [hresumes.arena_eq]
  · cases h with
    | returned _ hnodes => exact hnodes.arena_eq
    | aborted haborted _ => cases hreturned.symm.trans haborted
  · cases h with
    | returned hreturned _ => cases haborted.symm.trans hreturned
    | aborted _ hnodes => exact hnodes.arena_eq #[]

theorem exists_requestMakes (b : Bench) (limit : Nat) : ∃ nodes, b.RequestMakes limit nodes := by
  rcases b.resumes_requestProgram limit with ⟨hreturned, -⟩ | ⟨⟨reason, haborted⟩, -⟩
  · obtain ⟨nodes, hnodes⟩ := b.exists_programMakes limit
    exact ⟨nodes, .returned hreturned hnodes⟩
  · obtain ⟨nodes, hnodes⟩ := exists_drainMakes #[] b
    exact ⟨nodes, .aborted haborted hnodes⟩

end Bench

namespace Engine

variable {α : Type}

/-- The nodes that are made for the requests of the engine from the bench on. -/
inductive Makes : Engine α → Bench → List Node → Prop
  | done {a : α} {b : Bench} : Makes (.done a) b []
  | next {k : Ending (Option Token) → Engine α} {b : Bench} {nodes : List Node} :
      Makes (k b.request.1) b.request.2 nodes → Makes (.next k) b (b.supply.leaves ++ nodes)
  | create {node : Node} {k : NodeId → Engine α} {b : Bench} {nodes : List Node} :
      Makes (k (b.create node).1) (b.create node).2 nodes → Makes (.create node k) b (node :: nodes)
  | record {root : NodeId} {k : Engine α} {b : Bench} {nodes : List Node} :
      Makes k (b.record root) nodes → Makes (.record root k) b nodes
  | look {k : Arena → Option NodeId → Span → Engine α} {b : Bench} {nodes : List Node} :
      Makes (k b.arena b.root b.supply.span) b nodes → Makes (.look k) b nodes
  | readProgram {limit : Nat} {k : Ending Unit → Engine α} {b : Bench} {nodes nodes' : List Node} :
      b.RequestMakes limit nodes → Makes (k (b.requestProgram limit).1) (b.requestProgram limit).2 nodes' →
      Makes (.readProgram limit k) b (nodes ++ nodes')

theorem exists_makes (e : Engine α) (b : Bench) : ∃ nodes, e.Makes b nodes := by
  induction e generalizing b with
  | done value => exact ⟨_, .done⟩
  | next k ih =>
    obtain ⟨nodes, hnodes⟩ := ih b.request.1 b.request.2
    exact ⟨_, .next hnodes⟩
  | create node k ih =>
    obtain ⟨nodes, hnodes⟩ := ih (b.create node).1 (b.create node).2
    exact ⟨_, .create hnodes⟩
  | record root k ih =>
    obtain ⟨nodes, hnodes⟩ := ih (b.record root)
    exact ⟨_, .record hnodes⟩
  | look k ih =>
    obtain ⟨nodes, hnodes⟩ := ih b.arena b.root b.supply.span b
    exact ⟨_, .look hnodes⟩
  | readProgram limit k ih =>
    obtain ⟨nodes, hnodes⟩ := b.exists_requestMakes limit
    obtain ⟨nodes', hnodes'⟩ := ih (b.requestProgram limit).1 (b.requestProgram limit).2
    exact ⟨_, .readProgram hnodes hnodes'⟩

/-- The nodes that an engine makes are behind those that were there, in the order in which they are made. -/
theorem Makes.arena_eq {e : Engine α} {b : Bench} {nodes : List Node} (h : e.Makes b nodes) :
    (e.run b).2.arena = b.arena.append nodes := by
  induction h with
  | done => exact (Arena.append_nil _).symm
  | @next k b nodes _ ih => rw [run, ih, Bench.arena_request, Arena.append_append]
  | @create node k b nodes _ ih =>
    rw [run, ih, show (b.create node).2.arena = b.arena.push node from rfl, Arena.push_eq_append, Arena.append_append]
    rfl
  | record _ ih => exact ih
  | look _ ih => exact ih
  | readProgram hnodes _ ih => rw [run, ih, hnodes.arena_eq, Arena.append_append]

end Engine

end Formula
