import Formula.Proofs.Arena.Stability

/-!
# Arenas side by side

Two arenas that get the same nodes hand out different ids for them. `a.Aligned f b` says that the function `f` takes
the ids that the arena `a` hands out next to those that `b` does, so `f` takes the nodes made in `a` to those made in
`b`. If `a` starts empty this is a shift by the nodes that `b` has, and a tree reads the same after it
(`render_appendShifted`).
-/

namespace Formula

/-- The id so many places further on. -/
def NodeId.shift (n : Nat) (id : NodeId) : NodeId :=
  { id with index := id.index + n }

/-- The node with other ids for its children. -/
def Node.relabel (f : NodeId → NodeId) : Node → Node
  | identifier name => identifier name
  | integer value => integer value
  | fixed value => fixed value
  | paren inner => paren (f inner)
  | negation operand => negation (f operand)
  | binary operator left right => binary operator (f left) (f right)
  | assignment target value => assignment (f target) (f value)
  | sequence items => sequence (items.map f)

section

variable (f : NodeId → NodeId) (node : Node)

@[simp] theorem Node.isLeaf_relabel : (node.relabel f).isLeaf = node.isLeaf := by
  cases node <;> rfl

@[simp] theorem Node.label_relabel : (node.relabel f).label = node.label := by
  cases node <;> rfl

@[simp] theorem Node.children_relabel : (node.relabel f).children = node.children.map f := by
  cases node <;> rfl

theorem Node.relabel_of_isLeaf (h : node.isLeaf = true) : node.relabel f = node := by
  cases node <;> first | rfl | cases h

end

namespace Arena

/-- The function takes the ids that the first arena hands out next to those of the second. -/
def Aligned (f : NodeId → NodeId) (a b : Arena) : Prop :=
  ∀ k, f ⟨a.id, a.size + k⟩ = ⟨b.id, b.size + k⟩

variable {f : NodeId → NodeId} {a b c : Arena}

theorem Aligned.nextId (h : Aligned f a b) : f a.nextId = b.nextId := h 0

/-- As many nodes on either side leave the next ids where they belong. -/
theorem Aligned.append (h : Aligned f a b) {nodes nodes' : List Node} (hlength : nodes.length = nodes'.length) :
    Aligned f (a.append nodes) (b.append nodes') := by
  intro k
  simp only [id_append, size_append, hlength, Nat.add_assoc]
  exact h _

theorem Aligned.push (h : Aligned f a b) (node node' : Node) : Aligned f (a.push node) (b.push node') := by
  rw [push_eq_append, push_eq_append]
  exact h.append rfl

theorem aligned_shift (h : b.id = a.id) (hsize : a.size = 0) : Aligned (NodeId.shift b.size) a b := by
  intro k
  simp [NodeId.shift, h, hsize, Nat.add_comm]

/-! ## Walks side by side -/

/-- What is pending with other ids. -/
def Pending.relabel (f : NodeId → NodeId) : Pending → Pending
  | visit id => visit (f id)
  | p => p

theorem Pending.ofNode_relabel (f : NodeId → NodeId) (node : Node) (rest : List Pending) :
    ofNode (node.relabel f) (rest.map (relabel f)) = (ofNode node rest).map (relabel f) := by
  have hchildren (ids : List NodeId) (stack : List Pending) :
      (ids.map f).foldr (fun child stack => space :: visit child :: stack) (stack.map (relabel f)) =
        (ids.foldr (fun child stack => space :: visit child :: stack) stack).map (relabel f) := by
    induction ids with
    | nil => rfl
    | cons id ids ih =>
      rw [List.map_cons, List.foldr_cons, ih]
      rfl
  rw [ofNode, Node.label_relabel, Node.children_relabel, show close = close.relabel f from rfl, ← List.map_cons,
    hchildren]
  rfl

section

variable (h : ∀ id, b.node? (f id) = (a.node? id).map (Node.relabel f))
include h

/-- What is written in the first arena is written in the second. -/
theorem writeForm?_relabel_of_some {written text : String} {stack : List Pending}
    (hstack : a.writeForm? written stack = some text) :
    b.writeForm? written (stack.map (Pending.relabel f)) = some text := by
  refine writeForm?.partial_correctness a
    (fun written stack text => b.writeForm? written (stack.map (Pending.relabel f)) = some text) ?_ _ _ _ hstack
  intro loop ih written stack text hloop
  match stack with
  | [] =>
    rw [List.map_nil, writeForm?_eq]
    exact hloop
  | .head head :: rest | .space :: rest | .close :: rest =>
    simp only [List.map_cons, Pending.relabel]
    rw [writeForm?_eq]
    exact ih _ _ _ hloop
  | .visit id :: rest =>
    simp only [List.map_cons, Pending.relabel]
    cases hn : a.node? id with
    | none =>
      simp only [formBody, hn] at hloop
      rw [writeForm?_of_none (by rw [h, hn]; rfl)]
      exact ih _ _ _ hloop
    | some node =>
      simp only [formBody, hn] at hloop
      rw [writeForm?_of_some (by rw [h, hn]; rfl), Node.isLeaf_relabel, Node.label_relabel, Pending.ofNode_relabel]
      split at hloop
      · rw [if_pos ‹_›]
        exact ih _ _ _ hloop
      · rw [if_neg ‹_›]
        exact ih _ _ _ hloop

/-- What is written in the second arena is written in the first. -/
theorem writeForm?_of_relabel_eq_some {written text : String} {stack : List Pending}
    (hstack : b.writeForm? written (stack.map (Pending.relabel f)) = some text) :
    a.writeForm? written stack = some text := by
  refine writeForm?.partial_correctness b
    (fun written stack' text =>
      ∀ stack, stack' = stack.map (Pending.relabel f) → a.writeForm? written stack = some text)
    ?_ _ _ _ hstack stack rfl
  rintro loop ih written _ text hloop stack rfl
  match stack with
  | [] =>
    rw [writeForm?_eq]
    exact hloop
  | .head head :: rest | .space :: rest | .close :: rest =>
    rw [writeForm?_eq]
    exact ih _ _ _ hloop rest rfl
  | .visit id :: rest =>
    simp only [List.map_cons, Pending.relabel, formBody, h] at hloop
    cases hn : a.node? id with
    | none =>
      simp only [hn, Option.map_none] at hloop
      rw [writeForm?_of_none hn]
      exact ih _ _ _ hloop rest rfl
    | some node =>
      simp only [hn, Option.map_some, Node.isLeaf_relabel, Node.label_relabel, Pending.ofNode_relabel] at hloop
      rw [writeForm?_of_some hn]
      split at hloop
      · rw [if_pos ‹_›]
        exact ih _ _ _ hloop rest rfl
      · rw [if_neg ‹_›]
        exact ih _ _ _ hloop _ rfl

/-- Where ids mean the same nodes in two arenas up to the ids of these, they read the same, even if the walks never
end. -/
theorem render_relabel (id : NodeId) : b.render (f id) = a.render id := by
  have hwrite : b.writeForm? "" [.visit (f id)] = a.writeForm? "" [.visit id] := by
    refine Option.ext fun text => ⟨fun htext => ?_, writeForm?_relabel_of_some h⟩
    have htext : b.writeForm? "" ([Pending.visit id].map (Pending.relabel f)) = some text := htext
    exact writeForm?_of_relabel_eq_some h htext
  rw [render, render, render?, render?, hwrite]

end

/-! ## A tree further on -/

section

variable (b : Arena) (id : NodeId)

/-- The arena with the nodes of another behind its own, and their children as many places further on. -/
def appendShifted (b a : Arena) : Arena :=
  b.append (a.nodes.toList.map (Node.relabel (NodeId.shift b.size)))

theorem node?_appendShifted (h : a.id = b.id) :
    (b.appendShifted a).node? (id.shift b.size) = (a.node? id).map (Node.relabel (NodeId.shift b.size)) := by
  by_cases hid : id.arena = b.id
  · have hshift : id.shift b.size = ⟨b.id, b.size + id.index⟩ := by simp [NodeId.shift, hid, Nat.add_comm]
    rw [hshift, appendShifted, node?_append_size_add, node?_eq, h, if_pos hid]
    simp
  · have hshift : (id.shift b.size).arena ≠ (b.appendShifted a).id := hid
    rw [node?_eq, node?_eq, h, if_neg hid, if_neg hshift, Option.map_none]

/-- A tree reads the same further on. -/
theorem render_appendShifted (h : a.id = b.id) (id : NodeId) :
    (b.appendShifted a).render (id.shift b.size) = a.render id :=
  render_relabel (fun id => node?_appendShifted b id h) id

end

end Arena

end Formula
