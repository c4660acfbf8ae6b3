import Formula.Arena.Walk

/-!
# Walks that end

An id is founded in an arena if going down from it one always gets to leaves, to nodes without children, or to ids of
other arenas. Walks from a founded id end (`Founded.leaves?_eq`, `Founded.render?_eq`), and the leaves and the rendering
of a node whose children are founded are those of its children (`leaves_of_some`, `render_of_some`). A walk from an id
without a node ends at once.
-/

namespace Formula.Arena

/-- Below the id there are nodes, of which none is below itself, and ids of other arenas. -/
inductive Founded (a : Arena) : NodeId → Prop
  | other {id : NodeId} : id.arena ≠ a.id → Founded a id
  | node {id : NodeId} {node : Node} : a.node? id = some node → (∀ child ∈ node.children, Founded a child) →
      Founded a id

variable {a : Arena} {id : NodeId} {node : Node} {ids : List NodeId}

theorem node?_eq_none_of_ne (h : id.arena ≠ a.id) : a.node? id = none := by
  rw [node?_eq, if_neg h]

/-! ## Leaves -/

theorem collectLeaves?_of_none (h : a.node? id = none) (found : Array NodeId) (rest : List NodeId) :
    a.collectLeaves? found (id :: rest) = a.collectLeaves? found rest := by
  rw [collectLeaves?_eq a found (id :: rest), leafBody, h]

theorem collectLeaves?_of_some (h : a.node? id = some node) (found : Array NodeId) (rest : List NodeId) :
    a.collectLeaves? found (id :: rest) =
      if node.isLeaf then a.collectLeaves? (found.push id) rest
      else a.collectLeaves? found (node.children ++ rest) := by
  rw [collectLeaves?_eq a found (id :: rest), leafBody, h]

/-- The walk gets past the id, and has found its leaves then. -/
def LeavesFound (a : Arena) (id : NodeId) : Prop :=
  ∀ found rest, a.collectLeaves? found (id :: rest) = a.collectLeaves? (found ++ (a.leaves id).toArray) rest

/-- Whatever a walk adds for the id, those are its leaves. -/
theorem leavesFound_of_forall {l : List NodeId}
    (h : ∀ found rest, a.collectLeaves? found (id :: rest) = a.collectLeaves? (found ++ l.toArray) rest) :
    a.leaves? id = some l ∧ a.leaves id = l ∧ a.LeavesFound id := by
  have hleaves? : a.leaves? id = some l := by
    rw [leaves?, h, collectLeaves?_eq, leafBody]
    simp
  have hleaves : a.leaves id = l := by rw [leaves, hleaves?, Option.getD_some]
  exact ⟨hleaves?, hleaves, fun found rest => hleaves ▸ h found rest⟩

theorem collectLeaves?_append (h : ∀ id ∈ ids, a.LeavesFound id) (found : Array NodeId) (rest : List NodeId) :
    a.collectLeaves? found (ids ++ rest) = a.collectLeaves? (found ++ (ids.flatMap a.leaves).toArray) rest := by
  induction ids generalizing found with
  | nil => simp
  | cons id ids ih =>
    rw [List.cons_append, h id List.mem_cons_self, ih fun id hid => h id (List.mem_cons_of_mem _ hid)]
    simp

/-- A walk finds nothing at an id without a node. -/
theorem leavesFound_of_none (h : a.node? id = none) : a.leaves? id = some [] ∧ a.leaves id = [] ∧ a.LeavesFound id :=
  leavesFound_of_forall fun found rest => by simpa using collectLeaves?_of_none h found rest

theorem leaves_of_none (h : a.node? id = none) : a.leaves id = [] :=
  (leavesFound_of_none h).2.1

/-- The walk from a node is that from its children. -/
theorem leavesFound_of_some (hn : a.node? id = some node) (hc : ∀ child ∈ node.children, a.LeavesFound child) :
    let l := if node.isLeaf then [id] else node.children.flatMap a.leaves
    a.leaves? id = some l ∧ a.leaves id = l ∧ a.LeavesFound id := by
  refine leavesFound_of_forall fun found rest => ?_
  rw [collectLeaves?_of_some hn]
  split
  · simp
  · exact collectLeaves?_append hc found rest

theorem Founded.leavesFound (h : a.Founded id) : a.LeavesFound id := by
  induction h with
  | other hid => exact (leavesFound_of_none (node?_eq_none_of_ne hid)).2.2
  | node hn _ ih => exact (leavesFound_of_some hn ih).2.2

/-- The walk for the leaves ends. -/
theorem Founded.leaves?_eq (h : a.Founded id) : a.leaves? id = some (a.leaves id) :=
  have ⟨hleaves?, hleaves, _⟩ := leavesFound_of_forall h.leavesFound
  hleaves ▸ hleaves?

/-- The leaves of a node are those of its children. -/
theorem leaves_of_some (hn : a.node? id = some node) (hc : ∀ child ∈ node.children, a.Founded child) :
    a.leaves id = if node.isLeaf then [id] else node.children.flatMap a.leaves :=
  (leavesFound_of_some hn fun child hchild => (hc child hchild).leavesFound).2.1

/-! ## Forms -/

theorem writeForm?_head (a : Arena) (written text : String) (rest : List Pending) :
    a.writeForm? written (.head text :: rest) = a.writeForm? (written ++ "(" ++ text) rest :=
  writeForm?_eq a written (.head text :: rest)

theorem writeForm?_space (a : Arena) (written : String) (rest : List Pending) :
    a.writeForm? written (.space :: rest) = a.writeForm? (written ++ " ") rest :=
  writeForm?_eq a written (.space :: rest)

theorem writeForm?_close (a : Arena) (written : String) (rest : List Pending) :
    a.writeForm? written (.close :: rest) = a.writeForm? (written ++ ")") rest :=
  writeForm?_eq a written (.close :: rest)

theorem writeForm?_of_none (h : a.node? id = none) (written : String) (rest : List Pending) :
    a.writeForm? written (.visit id :: rest) = a.writeForm? (written ++ dangling) rest := by
  rw [writeForm?_eq a written (.visit id :: rest), formBody, h]

theorem writeForm?_of_some (h : a.node? id = some node) (written : String) (rest : List Pending) :
    a.writeForm? written (.visit id :: rest) =
      if node.isLeaf then a.writeForm? (written ++ node.label) rest
      else a.writeForm? written (Pending.ofNode node rest) := by
  rw [writeForm?_eq a written (.visit id :: rest), formBody, h]

/-- The walk gets past a visit of the id, and has written its rendering then. -/
def FormWritten (a : Arena) (id : NodeId) : Prop :=
  ∀ written rest, a.writeForm? written (.visit id :: rest) = a.writeForm? (written ++ a.render id) rest

/-- Whatever a walk writes for the id, this is its rendering. -/
theorem formWritten_of_forall {text : String}
    (h : ∀ written rest, a.writeForm? written (.visit id :: rest) = a.writeForm? (written ++ text) rest) :
    a.render? id = some text ∧ a.render id = text ∧ a.FormWritten id := by
  have hrender? : a.render? id = some text := by rw [render?, h, writeForm?_eq, formBody, String.empty_append]
  have hrender : a.render id = text := by rw [render, hrender?, Option.getD_some]
  exact ⟨hrender?, hrender, fun written rest => hrender ▸ h written rest⟩

theorem writeForm?_foldr (h : ∀ id ∈ ids, a.FormWritten id) (written : String) (rest : List Pending) :
    a.writeForm? written (ids.foldr (fun id stack => .space :: .visit id :: stack) rest) =
      a.writeForm? (written ++ String.join (ids.map fun id => " " ++ a.render id)) rest := by
  induction ids generalizing written with
  | nil => simp
  | cons id ids ih =>
    rw [List.foldr_cons, writeForm?_space, h id List.mem_cons_self, ih fun id hid => h id (List.mem_cons_of_mem _ hid)]
    simp [String.append_assoc]

theorem formWritten_of_none (h : a.node? id = none) :
    a.render? id = some dangling ∧ a.render id = dangling ∧ a.FormWritten id :=
  formWritten_of_forall (writeForm?_of_none h)

theorem render_of_none (h : a.node? id = none) : a.render id = dangling :=
  (formWritten_of_none h).2.1

/-- The walk from a node goes through its children. -/
theorem formWritten_of_some (hn : a.node? id = some node) (hc : ∀ child ∈ node.children, a.FormWritten child) :
    let text := if node.isLeaf then node.label
      else "(" ++ node.label ++ String.join (node.children.map fun child => " " ++ a.render child) ++ ")"
    a.render? id = some text ∧ a.render id = text ∧ a.FormWritten id := by
  refine formWritten_of_forall fun written rest => ?_
  rw [writeForm?_of_some hn]
  split
  · rfl
  · rw [Pending.ofNode, writeForm?_head, writeForm?_foldr hc, writeForm?_close]
    simp [String.append_assoc]

theorem Founded.formWritten (h : a.Founded id) : a.FormWritten id := by
  induction h with
  | other hid => exact (formWritten_of_none (node?_eq_none_of_ne hid)).2.2
  | node hn _ ih => exact (formWritten_of_some hn ih).2.2

/-- The walk for the rendering ends. -/
theorem Founded.render?_eq (h : a.Founded id) : a.render? id = some (a.render id) :=
  have ⟨hrender?, hrender, _⟩ := formWritten_of_forall h.formWritten
  hrender ▸ hrender?

/-- The rendering of a node has that of its children in it. -/
theorem render_of_some (hn : a.node? id = some node) (hc : ∀ child ∈ node.children, a.Founded child) :
    a.render id = if node.isLeaf then node.label
      else "(" ++ node.label ++ String.join (node.children.map fun child => " " ++ a.render child) ++ ")" :=
  (formWritten_of_some hn fun child hchild => (hc child hchild).formWritten).2.1

end Formula.Arena
