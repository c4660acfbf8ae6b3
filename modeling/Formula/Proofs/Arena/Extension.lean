import Formula.Arena.Basic

/-!
# Arenas with more nodes

An arena only ever gets more nodes behind those it has. `a.append nodes` is the arena `a` after that, and `a.Extends b`
says that the arena `b` comes from `a` in this way. Every id keeps its node (`Extends.node?`).
-/

namespace Formula.Arena

/-- The arena with more nodes behind those it has. -/
def append (a : Arena) (nodes : List Node) : Arena :=
  { a with nodes := a.nodes ++ nodes.toArray }

/-- The second arena has the nodes of the first, and perhaps more behind them. -/
def Extends (a b : Arena) : Prop :=
  ∃ nodes, b = a.append nodes

/-- The id means a name or a numeral. -/
def IsLeaf (a : Arena) (id : NodeId) : Prop :=
  ∃ node, a.node? id = some node ∧ node.isLeaf = true

variable {a b c : Arena} {id : NodeId} {node : Node} {nodes nodes' : List Node}

@[simp] theorem append_nil (a : Arena) : a.append [] = a := by
  simp [append]

@[simp] theorem append_append (a : Arena) (nodes nodes' : List Node) :
    (a.append nodes).append nodes' = a.append (nodes ++ nodes') := by
  simp [append]

theorem append_injective (a : Arena) : Function.Injective a.append := by
  intro nodes nodes' h
  have h := congrArg (fun a => a.nodes.toList) h
  simpa [append] using h

theorem push_eq_append (a : Arena) (node : Node) : a.push node = a.append [node] := by
  simp [push, append]

@[simp] theorem id_append (a : Arena) (nodes : List Node) : (a.append nodes).id = a.id := rfl

@[simp] theorem size_append (a : Arena) (nodes : List Node) : (a.append nodes).size = a.size + nodes.length := by
  simp [append, size]

theorem node?_append (h : a.node? id = some node) (nodes : List Node) : (a.append nodes).node? id = some node := by
  rw [node?_eq] at h ⊢
  by_cases hid : id.arena = a.id
  · rw [if_pos hid] at h
    rw [id_append, if_pos hid]
    obtain ⟨hi, hn⟩ := Array.getElem?_eq_some_iff.mp h
    rw [append, Array.getElem?_append_left hi, h]
  · rw [if_neg hid] at h
    cases h

theorem extends_refl (a : Arena) : a.Extends a := ⟨[], (append_nil a).symm⟩

theorem extends_push (a : Arena) (node : Node) : a.Extends (a.push node) := ⟨[node], push_eq_append a node⟩

theorem Extends.trans (h : a.Extends b) (h' : b.Extends c) : a.Extends c := by
  obtain ⟨nodes, rfl⟩ := h
  obtain ⟨nodes', rfl⟩ := h'
  exact ⟨nodes ++ nodes', append_append a nodes nodes'⟩

/-- Every id keeps its node. -/
theorem Extends.node? (h : a.Extends b) (hn : a.node? id = some node) : b.node? id = some node := by
  obtain ⟨nodes, rfl⟩ := h
  exact node?_append hn nodes

theorem Extends.isLeaf (h : a.Extends b) (hl : a.IsLeaf id) : b.IsLeaf id := by
  obtain ⟨node, hn, hl⟩ := hl
  exact ⟨node, h.node? hn, hl⟩

end Formula.Arena
