import Formula.Proofs.Arena.Extension
import Formula.Proofs.Arena.Shape
import Formula.Proofs.Grammar.Meets

/-!
# The nodes that rules make

`Makes tokens r i run nodes` follows the rule `r` from the position `i` on and lists the nodes that it makes, in order.
Those of an alternative that is given up, and of a step that fails, are among them. There is one constructor for every
way in which a rule can go on. Every rule of the grammar makes such a list (`traced_program`), and the arena has it
behind the nodes that were there (`Makes.arena_eq`): nothing that was made is taken back. Below the root of a program
there are no sequences among them (`makesOnly_statements`).
-/

namespace Formula.Grammar

open Rule hiding pure bind

section

variable (tokens : Array Token)

/-- The rule makes the nodes in turn when it starts at the position with the run. -/
inductive Makes : {α : Type} → Rule α → Nat → Run → List Node → Prop
  | pure {α : Type} {a : α} {i : Nat} {run : Run} : Makes (pure a : Rule α) i run []
  | exhausted {α : Type} {i : Nat} {run : Run} : Makes (exhausted : Rule α) i run []
  | token {α : Type} {c : Class} {value? : Token → Option α} {i : Nat} {run : Run} : Makes (token c value?) i run []
  | atEnd {i : Nat} {run : Run} : Makes atEnd i run []
  | create {node : Node} {i : Nat} {run : Run} : Makes (create node) i run [node]
  | andThen {α β : Type} {r : Rule α} {f : α → Rule β} {i j : Nat} {run run' : Run} {a : α}
      {nodes nodes' : List Node} : r tokens i run = (.matched a j, run') → Makes r i run nodes →
      Makes (f a) j run' nodes' → Makes (r >>= f) i run (nodes ++ nodes')
  | stop {α β : Type} {r : Rule α} {f : α → Rule β} {i : Nat} {run : Run} {nodes : List Node} :
      (∀ a j, (r tokens i run).1 ≠ .matched a j) → Makes r i run nodes → Makes (r >>= f) i run nodes
  | otherwise {α : Type} {r r' : Rule α} {i : Nat} {run run' : Run} {nodes nodes' : List Node} :
      r tokens i run = (.failed, run') → Makes r i run nodes → Makes r' i run' nodes' →
      Makes (r <|> r') i run (nodes ++ nodes')
  | keep {α : Type} {r r' : Rule α} {i : Nat} {run : Run} {nodes : List Node} :
      (r tokens i run).1 ≠ .failed → Makes r i run nodes → Makes (r <|> r') i run nodes
  | more {α : Type} {step : α → Rule α} {a b : α} {i j : Nat} {run run' : Run} {nodes nodes' : List Node} :
      step a tokens i run = (.matched b j, run') → i < j ∧ j ≤ tokens.size → Makes (step a) i run nodes →
      Makes (iterate step b) j run' nodes' → Makes (iterate step a) i run (nodes ++ nodes')
  | last {α : Type} {step : α → Rule α} {a : α} {i : Nat} {run : Run} {nodes : List Node} :
      (∀ b j, (step a tokens i run).1 = .matched b j → ¬ (i < j ∧ j ≤ tokens.size)) → Makes (step a) i run nodes →
      Makes (iterate step a) i run nodes

/-- Whatever happens, the rule makes some list of nodes. -/
def Traced {α : Type} (r : Rule α) : Prop :=
  ∀ i run, ∃ nodes, Makes tokens r i run nodes

end

section

variable {α β : Type} {tokens : Array Token} {r r' : Rule α} {i : Nat} {run : Run} {nodes : List Node}

/-! ## What is made is behind what was there -/

theorem arena_token (c : Class) (value? : Token → Option α) (i : Nat) (run : Run) :
    (token c value? tokens i run).2.arena = run.arena := by
  unfold token
  split <;> rfl

theorem arena_atEnd (i : Nat) (run : Run) : (atEnd tokens i run).2.arena = run.arena := by
  unfold atEnd
  split <;> rfl

/-- A sequence that stops with its first part has changed what that has. -/
theorem bind_stopped {f : α → Rule β} (h : ∀ a j, (r tokens i run).1 ≠ .matched a j) :
    ((r >>= f) tokens i run).2 = (r tokens i run).2 := by
  rcases hr : r tokens i run with ⟨_ | _ | _, run'⟩
  · exact absurd (by rw [hr]) (h _ _)
  · rw [bind_failed f hr]
  · rw [bind_exhausted f hr]

theorem orElse_kept (h : (r tokens i run).1 ≠ .failed) : (r <|> r') tokens i run = r tokens i run := by
  rcases hr : r tokens i run with ⟨_ | _ | _, run'⟩
  · rw [orElse_matched r' hr]
  · exact absurd (by rw [hr]) h
  · rw [orElse_exhausted r' hr]

theorem iterate_last {step : α → Rule α} {a : α}
    (h : ∀ b j, (step a tokens i run).1 = .matched b j → ¬ (i < j ∧ j ≤ tokens.size)) :
    (iterate step a tokens i run).2 = (step a tokens i run).2 := by
  rw [iterate]
  rcases hr : step a tokens i run with ⟨⟨b, j⟩ | _ | _, run'⟩
  · simp only [if_neg (h b j (by rw [hr]))]
  · rfl
  · rfl

/-- The nodes that a rule makes are behind those that were there, in the order in which it makes them. -/
theorem Makes.arena_eq (h : Makes tokens r i run nodes) : (r tokens i run).2.arena = run.arena.append nodes := by
  induction h with
  | pure | exhausted => exact (Arena.append_nil _).symm
  | token => rw [arena_token, Arena.append_nil]
  | atEnd => rw [arena_atEnd, Arena.append_nil]
  | create => exact Arena.push_eq_append _ _
  | andThen hr _ _ ih ih' =>
    rw [hr] at ih
    rw [bind_matched _ hr, ih', ih, Arena.append_append]
  | stop hr _ ih => rw [bind_stopped hr, ih]
  | otherwise hr _ _ ih ih' =>
    rw [hr] at ih
    rw [orElse_failed _ hr, ih', ih, Arena.append_append]
  | keep hr _ ih => rw [orElse_kept hr, ih]
  | more hr hij _ _ ih ih' =>
    rw [hr] at ih
    rw [iterate_matched hr hij.1 hij.2, ih', ih, Arena.append_append]
  | last hr _ ih => rw [iterate_last hr, ih]

/-! ## Every rule makes something or nothing -/

/-- Whatever happens, the rule makes some list of nodes, and all of them have the property. -/
def MakesOnly (tokens : Array Token) (P : Node → Prop) {α : Type} (r : Rule α) : Prop :=
  ∀ i run, ∃ nodes, Makes tokens r i run nodes ∧ ∀ node ∈ nodes, P node

variable {P : Node → Prop}

theorem MakesOnly.traced (h : MakesOnly tokens P r) : Traced tokens r := fun i run =>
  let ⟨nodes, hnodes, _⟩ := h i run
  ⟨nodes, hnodes⟩

theorem MakesOnly.bind {f : α → Rule β} (h : MakesOnly tokens P r) (hf : ∀ a, MakesOnly tokens P (f a)) :
    MakesOnly tokens P (r >>= f) := by
  intro i run
  obtain ⟨nodes, hnodes, hall⟩ := h i run
  rcases hr : r tokens i run with ⟨⟨a, j⟩ | _ | _, run'⟩
  · obtain ⟨nodes', hnodes', hall'⟩ := hf a j run'
    exact ⟨_, .andThen hr hnodes hnodes', List.forall_mem_append.mpr ⟨hall, hall'⟩⟩
  · exact ⟨_, .stop (fun _ _ => by rw [hr]; nofun) hnodes, hall⟩
  · exact ⟨_, .stop (fun _ _ => by rw [hr]; nofun) hnodes, hall⟩

theorem MakesOnly.orElse (h : MakesOnly tokens P r) (h' : MakesOnly tokens P r') :
    MakesOnly tokens P (r <|> r') := by
  intro i run
  obtain ⟨nodes, hnodes, hall⟩ := h i run
  rcases hr : r tokens i run with ⟨_ | _ | _, run'⟩
  · exact ⟨_, .keep (by rw [hr]; nofun) hnodes, hall⟩
  · obtain ⟨nodes', hnodes', hall'⟩ := h' i run'
    exact ⟨_, .otherwise hr hnodes hnodes', List.forall_mem_append.mpr ⟨hall, hall'⟩⟩
  · exact ⟨_, .keep (by rw [hr]; nofun) hnodes, hall⟩

/-- A repetition makes what its steps make; each but the last leaves fewer tokens. -/
theorem MakesOnly.iterate {step : α → Rule α} (h : ∀ a, MakesOnly tokens P (step a)) (a : α) :
    MakesOnly tokens P (iterate step a) := by
  intro i run
  induction hn : tokens.size - i using Nat.strongRecOn generalizing a i run with
  | _ n ih =>
    obtain ⟨nodes, hnodes, hall⟩ := h a i run
    by_cases hmore : ∃ b j run', step a tokens i run = (.matched b j, run') ∧ i < j ∧ j ≤ tokens.size
    · obtain ⟨b, j, run', hr, hij⟩ := hmore
      obtain ⟨nodes', hnodes', hall'⟩ := ih _ (by omega) b j run' rfl
      exact ⟨_, .more hr hij hnodes hnodes', List.forall_mem_append.mpr ⟨hall, hall'⟩⟩
    · exact ⟨_, .last (fun b j hb hij => hmore ⟨b, j, _, Prod.ext hb rfl, hij⟩) hnodes, hall⟩

theorem makesOnly_pure (a : α) : MakesOnly tokens P (pure a : Rule α) := fun _ _ => ⟨_, .pure, by simp⟩

theorem makesOnly_symbol (c : Class) : MakesOnly tokens P (symbol c) := fun _ _ => ⟨_, .token, by simp⟩

theorem makesOnly_leaf (c : Class) : MakesOnly tokens P (leaf c) := fun _ _ => ⟨_, .token, by simp⟩

theorem makesOnly_create {node : Node} (h : P node) : MakesOnly tokens P (create node) := fun _ _ =>
  ⟨_, .create, by simpa using h⟩

theorem makesOnly_atEnd : MakesOnly tokens P atEnd := fun _ _ => ⟨_, .atEnd, by simp⟩

section

variable (hP : ∀ node : Node, node.isLeaf = false → node.isStatement = true → P node)
include hP

theorem makesOnly_operation {right : Rule NodeId} (h : MakesOnly tokens P right) (c : Class) (o : Operator)
    (left : NodeId) : MakesOnly tokens P (operation c o right left) :=
  (makesOnly_symbol _).bind fun _ => h.bind fun _ => makesOnly_create (hP _ rfl rfl)

section

variable {enter : Level → Rule NodeId} (h : ∀ l, MakesOnly tokens P (enter l))
include h

theorem makesOnly_atom : MakesOnly tokens P (atom enter) :=
  (makesOnly_leaf _).orElse <| (makesOnly_leaf _).orElse <| (makesOnly_symbol _).bind fun _ => (h _).bind fun _ =>
    (makesOnly_symbol _).bind fun _ => makesOnly_create (hP _ rfl rfl)

theorem makesOnly_factor : MakesOnly tokens P (factor enter) :=
  ((makesOnly_symbol _).bind fun _ => (h _).bind fun _ => makesOnly_create (hP _ rfl rfl)).orElse
    (makesOnly_atom hP h)

theorem makesOnly_productStep (left : NodeId) : MakesOnly tokens P (productStep enter left) :=
  (makesOnly_operation hP (makesOnly_factor hP h) _ _ _).orElse
    (makesOnly_operation hP (makesOnly_factor hP h) _ _ _)

theorem makesOnly_product : MakesOnly tokens P (product enter) :=
  (makesOnly_factor hP h).bind fun _ => .iterate (makesOnly_productStep hP h) _

theorem makesOnly_sumStep (left : NodeId) : MakesOnly tokens P (sumStep enter left) :=
  (makesOnly_operation hP (makesOnly_product hP h) _ _ _).orElse <|
    (makesOnly_operation hP (makesOnly_product hP h) _ _ _).orElse (makesOnly_productStep hP h _)

theorem makesOnly_level (l : Level) : MakesOnly tokens P (level enter l) := by
  cases l with
  | sum => exact (makesOnly_factor hP h).bind fun _ => .iterate (makesOnly_sumStep hP h) _
  | product => exact makesOnly_product hP h
  | factor => exact makesOnly_factor hP h

end

theorem makesOnly_expression (n : Nat) (l : Level) : MakesOnly tokens P (expression n l) := by
  induction n generalizing l with
  | zero => exact makesOnly_level hP (fun _ _ _ => ⟨_, .exhausted, by simp⟩) l
  | succ n ih => exact makesOnly_level hP ih l

section

variable {expr : Rule NodeId} (h : MakesOnly tokens P expr)
include h

theorem makesOnly_statement : MakesOnly tokens P (statement expr) :=
  ((makesOnly_leaf _).bind fun _ => (makesOnly_symbol _).bind fun _ => h.bind fun _ =>
    makesOnly_create (hP _ rfl rfl)).orElse h

theorem makesOnly_statements : MakesOnly tokens P (statements expr) :=
  (makesOnly_statement hP h).bind fun _ =>
    (MakesOnly.iterate (fun _ => (makesOnly_symbol _).bind fun _ => (makesOnly_statement hP h).bind fun _ =>
      makesOnly_pure _) _).bind fun _ => makesOnly_pure _

end

end

/-- Only the root of a program may be a sequence. -/
theorem makesOnly_program {expr : Rule NodeId} (hP : ∀ node : Node, node.isLeaf = false → P node)
    (h : MakesOnly tokens P expr) : MakesOnly tokens P (program expr) := by
  refine (makesOnly_statements (fun node hn _ => hP node hn) h).bind fun items =>
    ((makesOnly_symbol _).orElse (makesOnly_pure _)).bind fun _ => makesOnly_atEnd.bind fun _ => ?_
  unfold rootOf
  split
  · exact makesOnly_pure _
  · exact makesOnly_create (hP _ rfl)

theorem traced_program (tokens : Array Token) (n : Nat) : Traced tokens (program (expression n .sum)) :=
  (makesOnly_program (P := fun _ => True) (fun _ _ => trivial)
    (makesOnly_expression (fun _ _ _ => trivial) n .sum)).traced

end

/-! ## Both runs of the grammar -/

/-- What reading the tokens makes: a second run makes its nodes behind those of the first. -/
inductive ReadMakes (tokens : Array Token) (a : Arena) : List Node → Prop
  | once {root : NodeId} {j : Nat} {nodes : List Node} : (run tokens a (.locate 0)).1 = .matched root j →
      Makes tokens (program (expression tokens.size .sum)) 0 ⟨a, .locate 0⟩ nodes → ReadMakes tokens a nodes
  | twice {first : Run} {o : Outcome NodeId} {nodes nodes' : List Node} :
      run tokens a (.locate 0) = (o, first) → (∀ root j, o ≠ .matched root j) →
      Makes tokens (program (expression tokens.size .sum)) 0 ⟨a, .locate 0⟩ nodes →
      Makes tokens (program (expression tokens.size .sum)) 0
        ⟨first.arena, .explain first.probe.position []⟩ nodes' →
      ReadMakes tokens a (nodes ++ nodes')

theorem exists_readMakes (tokens : Array Token) (a : Arena) : ∃ nodes, ReadMakes tokens a nodes := by
  have htraced := traced_program tokens tokens.size
  obtain ⟨nodes, hnodes⟩ := htraced 0 ⟨a, .locate 0⟩
  rcases hrun : run tokens a (.locate 0) with ⟨o, first⟩
  obtain ⟨nodes', hnodes'⟩ := htraced 0 ⟨first.arena, .explain first.probe.position []⟩
  cases o with
  | matched root j => exact ⟨_, .once (by rw [hrun]) hnodes⟩
  | failed => exact ⟨_, .twice hrun (fun _ _ => nofun) hnodes hnodes'⟩
  | exhausted => exact ⟨_, .twice hrun (fun _ _ => nofun) hnodes hnodes'⟩

theorem ReadMakes.arena_eq {tokens : Array Token} {a : Arena} {nodes : List Node} (h : ReadMakes tokens a nodes) :
    (read tokens a).2 = a.append nodes := by
  cases h with
  | @once root j _ hrun hnodes =>
    have harena := hnodes.arena_eq
    rcases hread : run tokens a (.locate 0) with ⟨o, first⟩
    rw [hread] at hrun
    subst hrun
    rw [read, hread]
    rw [run] at hread
    rw [hread] at harena
    exact harena
  | @twice first o nodes nodes' hrun ho hnodes hnodes' =>
    have harena := hnodes.arena_eq
    have harena' := hnodes'.arena_eq
    rw [read, hrun]
    rw [run] at hrun
    rw [hrun] at harena
    cases o with
    | matched root j => exact absurd rfl (ho root j)
    | failed | exhausted =>
      simp only at harena ⊢
      rw [harena, Arena.append_append] at harena'
      rw [run, harena]
      exact harena'

end Formula.Grammar
