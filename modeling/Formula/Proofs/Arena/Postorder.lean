import Formula.Proofs.Arena.Stability

/-!
# Trees in post-order

`a.composites id` lists the composite nodes of the tree below an id: those of its children from left to right, and then
the id itself. Like the leaves they are found among the nodes that were made before, and nothing that is made later
changes them (`composites_append`).

`a.Postorder nodes roots leaves` says that the nodes are made behind those of the arena `a` as trees with these roots
and leaves are built: they are the composite nodes of the trees in post-order, and every one of them, and every leaf, is
either a root or a child of one new node, and that once. Trees can be built one behind the other (`Postorder.append`),
and a node whose children are the roots makes one tree of them (`Postorder.push`). `a.Plants b roots leaves` says the
same of the arena `b` with these nodes.
-/

namespace Formula.Arena

/-- The composite nodes below an id, each behind those below it. -/
def composites (a : Arena) (id : NodeId) : List NodeId :=
  match a.node? id with
  | none => []
  | some node =>
    if node.isLeaf then []
    else (node.children.flatMap fun c => if _h : c.index < id.index then a.composites c else []) ++ [id]
termination_by id.index

variable {a b : Arena} {id : NodeId} {node : Node} {nodes nodes' : List Node} {roots roots' leaves leaves' : List NodeId}

theorem composites_of_none (h : a.node? id = none) : a.composites id = [] := by
  rw [composites, h]

theorem composites_of_some (h : a.node? id = some node) : a.composites id =
    if node.isLeaf then []
    else (node.children.flatMap fun c => if c.index < id.index then a.composites c else []) ++ [id] := by
  rw [composites, h]
  simp only [dite_eq_ite]

theorem IsLeaf.composites_eq (h : a.IsLeaf id) : a.composites id = [] := by
  obtain ⟨node, hn, hleaf⟩ := h
  rw [composites_of_some hn, if_pos hleaf]

theorem composites_append {id : NodeId} (h : a.IsOld id) (nodes : List Node) :
    (a.append nodes).composites id = a.composites id := by
  have hsame := node?_append_of_isOld h nodes
  cases hn : a.node? id with
  | none => rw [composites_of_none (hsame.trans hn), composites_of_none hn]
  | some node =>
    rw [composites_of_some (hsame.trans hn), composites_of_some hn]
    congr 3
    funext c
    split
    · rename_i hc
      exact composites_append (isOld_child hn hc) nodes
    · rfl
termination_by id.index

/-- Below a new node there are the composite nodes below its children, and itself. -/
theorem composites_push (hleaf : node.isLeaf = false) (h : ∀ c ∈ node.children, c.index < a.size) :
    (a.push node).composites a.nextId = node.children.flatMap a.composites ++ [a.nextId] := by
  rw [composites_of_some (node?_push_nextId a node), hleaf, if_neg Bool.false_ne_true]
  congr 1
  refine List.flatMap_congr fun c hc => ?_
  rw [nextId, if_pos (h c hc), push_eq_append]
  exact composites_append (fun _ => h c hc) _

theorem nextIds_append (a : Arena) (nodes nodes' : List Node) :
    a.nextIds (nodes ++ nodes').length = a.nextIds nodes.length ++ (a.append nodes).nextIds nodes'.length := by
  simp [nextIds, List.range_add, Function.comp_def, Nat.add_assoc]

/-- The nodes are made behind those of the arena as trees with the roots and leaves are built. -/
structure Postorder (a : Arena) (nodes : List Node) (roots leaves : List NodeId) : Prop where
  index_lt : ∀ root ∈ roots, root.index < (a.append nodes).size
  composites_eq : roots.flatMap (a.append nodes).composites = a.nextIds nodes.length
  perm : (nodes.flatMap Node.children ++ roots).Perm (leaves ++ a.nextIds nodes.length)

theorem postorder_nil (a : Arena) : a.Postorder [] [] [] := ⟨by simp, rfl, .nil⟩

/-- For a leaf nothing is made. -/
theorem IsLeaf.postorder (h : a.IsLeaf id) : a.Postorder [] [id] [id] := by
  have hnone := h.composites_eq
  obtain ⟨node, hn, -⟩ := h
  refine ⟨?_, ?_, .refl _⟩
  · simpa using index_lt_of_node? hn
  · simp [hnone, nextIds]

/-- What is built later leaves the trees as they are. -/
theorem Postorder.append (h : a.Postorder nodes roots leaves) (h' : (a.append nodes).Postorder nodes' roots' leaves') :
    a.Postorder (nodes ++ nodes') (roots ++ roots') (leaves ++ leaves') := by
  refine ⟨?lt, ?composites, ?perm⟩
  case lt =>
    have hle : (a.append nodes).size ≤ (a.append (nodes ++ nodes')).size := by
      rw [← append_append, size_append (a.append nodes)]
      exact Nat.le_add_right _ _
    refine List.forall_mem_append.mpr ⟨fun root hroot => Nat.lt_of_lt_of_le (h.index_lt root hroot) hle, ?_⟩
    simpa using h'.index_lt
  case composites =>
    have hkeep : roots.flatMap (a.append (nodes ++ nodes')).composites = roots.flatMap (a.append nodes).composites :=
      List.flatMap_congr fun root hroot => by
        rw [← append_append]
        exact composites_append (fun _ => h.index_lt root hroot) nodes'
    have hlater := h'.composites_eq
    rw [append_append] at hlater
    rw [List.flatMap_append, hkeep, h.composites_eq, hlater, nextIds_append]
  case perm =>
    refine List.perm_iff_count.mpr fun x => ?_
    have hcount := h.perm.count_eq x
    have hcount' := h'.perm.count_eq x
    rw [nextIds_append]
    simp only [List.flatMap_append, List.count_append] at hcount hcount' ⊢
    omega

/-- A node over all roots is the root of one tree. -/
theorem Postorder.push (h : a.Postorder nodes roots leaves) (hleaf : node.isLeaf = false)
    (hchildren : node.children = roots) : a.Postorder (nodes ++ [node]) [(a.append nodes).nextId] leaves := by
  have hpush : a.append (nodes ++ [node]) = (a.append nodes).push node := by rw [push_eq_append, append_append]
  have hnext : (a.append nodes).nextIds [node].length = [(a.append nodes).nextId] := nextIds_succ _ node 0
  refine ⟨?_, ?_, ?_⟩
  · rw [hpush]
    simp [nextId]
  · rw [hpush, List.flatMap_singleton, composites_push hleaf (hchildren ▸ h.index_lt), hchildren, h.composites_eq,
      nextIds_append, hnext]
  · rw [nextIds_append, hnext, List.flatMap_append, List.flatMap_singleton, hchildren, ← List.append_assoc]
    exact h.perm.append_right _

theorem getLast?_composites (h : a.composites id ≠ []) : (a.composites id).getLast? = some id := by
  cases hn : a.node? id with
  | none => exact absurd (composites_of_none hn) h
  | some node =>
    rw [composites_of_some hn] at h ⊢
    split at h
    · exact absurd rfl h
    · rename_i hleaf
      simp [hleaf]

/-- The root of a single tree comes last, behind its leaves and the other new nodes. -/
theorem Postorder.getLast?_eq {root : NodeId} (h : a.Postorder nodes [root] leaves) :
    (leaves ++ a.nextIds nodes.length).getLast? = some root := by
  have hcomposites := h.composites_eq
  rw [List.flatMap_singleton] at hcomposites
  rcases nodes.eq_nil_or_concat with rfl | ⟨nodes, node, rfl⟩
  · have hleaves : [root].Perm leaves := by simpa [nextIds] using h.perm
    rw [List.perm_singleton.mp hleaves.symm]
    simp [nextIds]
  · have hne : a.nextIds (nodes.concat node).length ≠ [] := by simp [nextIds]
    rw [List.getLast?_append_of_ne_nil _ hne, ← hcomposites]
    exact getLast?_composites (hcomposites ▸ hne)

/-- Where leaves and new nodes are all different, each of them but the root is a child of one new node, and that once,
and there are no other children. -/
theorem Postorder.count_children {root : NodeId} (h : a.Postorder nodes [root] leaves)
    (hnodup : (leaves ++ a.nextIds nodes.length).Nodup) (id : NodeId) :
    (nodes.flatMap Node.children).count id =
      if id ∈ leaves ++ a.nextIds nodes.length ∧ id ≠ root then 1 else 0 := by
  have hcount := h.perm.count_eq id
  have hroot : root ∈ leaves ++ a.nextIds nodes.length := h.perm.subset (by simp)
  rw [List.count_append, hnodup.count] at hcount
  by_cases hid : id = root
  · subst hid
    simp [hroot] at hcount ⊢
    omega
  · have hother : [root].count id = 0 := List.count_eq_zero.mpr (by simpa using hid)
    simpa [hother, hid] using hcount

/-- The second arena has more nodes, which are those of trees with the roots and leaves in post-order. -/
def Plants (a b : Arena) (roots leaves : List NodeId) : Prop :=
  ∃ nodes, b = a.append nodes ∧ a.Postorder nodes roots leaves

theorem plants_nil (a : Arena) : a.Plants a [] [] := ⟨[], a.append_nil.symm, a.postorder_nil⟩

theorem IsLeaf.plants (h : a.IsLeaf id) : a.Plants a [id] [id] := ⟨[], a.append_nil.symm, h.postorder⟩

theorem Plants.append {c : Arena} (h : a.Plants b roots leaves) (h' : b.Plants c roots' leaves') :
    a.Plants c (roots ++ roots') (leaves ++ leaves') := by
  obtain ⟨nodes, rfl, hnodes⟩ := h
  obtain ⟨nodes', rfl, hnodes'⟩ := h'
  exact ⟨nodes ++ nodes', append_append a nodes nodes', hnodes.append hnodes'⟩

theorem Plants.push (h : a.Plants b roots leaves) (hleaf : node.isLeaf = false) (hchildren : node.children = roots) :
    a.Plants (b.push node) [b.nextId] leaves := by
  obtain ⟨nodes, rfl, hnodes⟩ := h
  exact ⟨nodes ++ [node], by rw [push_eq_append, append_append], hnodes.push hleaf hchildren⟩

end Formula.Arena
