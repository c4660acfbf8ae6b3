import Formula.Proofs.Arena.Handles

/-!
# Arenas in which children come first

In an arena that descends, every child of a node that is in the arena was made before the node. Such an arena can be
gone through by induction from the children up (`Descends.induction`), so every id that it has handed out is founded
(`Descends.founded`), and the plain recursions for the leaves and for the rendering each have one solution: what the
walks give (`Descends.leafRecursion_iff`, `Descends.formRecursion_iff`). Arenas descend if their nodes refer only to ids
that were handed out before (`Records.descends`).
-/

namespace Formula

namespace Arena

variable {a : Arena} {id child : NodeId} {node : Node}

/-- Every child in the arena was made before its parent. -/
def Descends (a : Arena) : Prop :=
  ∀ ⦃id node child⦄, a.node? id = some node → child ∈ node.children → child.arena = a.id → child.index < id.index

/-- What holds of every id without a node, and of a node if it does of its children, holds of every id. -/
theorem Descends.induction (h : a.Descends) {P : NodeId → Prop} (none : ∀ id, a.node? id = none → P id)
    (some : ∀ id node, a.node? id = some node → (∀ child ∈ node.children, P child) → P id) (id : NodeId) : P id := by
  cases hn : a.node? id with
  | none => exact none id hn
  | some node =>
    refine some id node hn fun child hc => ?_
    by_cases harena : child.arena = a.id
    · have hlt : child.index < id.index := h hn hc harena
      exact h.induction none some child
    · exact none child (node?_eq_none_of_ne harena)
termination_by id.index

theorem descends_empty (id : Nat) : (Arena.empty id).Descends := by
  intro id' node child hn
  simp [node?_eq, empty] at hn

/-- An arena goes on to descend if the children of a new node are old. -/
theorem Descends.push (h : a.Descends) (hc : ∀ child ∈ node.children, a.IsOld child) : (a.push node).Descends := by
  intro id n child hn hchild harena
  by_cases hid : id = a.nextId
  · subst hid
    cases (node?_push_nextId a node).symm.trans hn
    exact hc child hchild harena
  · rw [node?_push_of_ne a node hid] at hn
    exact h hn hchild harena

/-- Leaves have no children, so they may be made behind any nodes. -/
theorem Descends.append_leaves (h : a.Descends) {nodes : List Node} (hnodes : ∀ node ∈ nodes, node.isLeaf = true) :
    (a.append nodes).Descends := by
  induction nodes generalizing a with
  | nil => rwa [append_nil]
  | cons node nodes ih =>
    obtain ⟨hnode, hnodes⟩ := List.forall_mem_cons.mp hnodes
    have hpush : (a.push node).Descends := h.push (by simp [Node.children_of_isLeaf hnode])
    rw [← List.singleton_append, ← append_append, ← push_eq_append]
    exact ih hpush hnodes

/-! ## The recursions -/

/-- The function gives the leaves below each id by recursion: a leaf itself, of any other node those of its children,
left to right. -/
def LeafRecursion (a : Arena) (g : NodeId → List NodeId) : Prop :=
  ∀ id, g id =
    match a.node? id with
    | none => []
    | some node => if node.isLeaf then [id] else node.children.flatMap g

/-- The function gives the rendering of each id by recursion: of a leaf its text, of any other node a form with its
head and its children in order. -/
def FormRecursion (a : Arena) (g : NodeId → String) : Prop :=
  ∀ id, g id =
    match a.node? id with
    | none => dangling
    | some node =>
      if node.isLeaf then node.label
      else "(" ++ node.label ++ String.join (node.children.map fun child => " " ++ g child) ++ ")"

section

variable (h : a.Descends)
include h

/-- In an arena that descends, only ids that it may still hand out are not founded. -/
theorem Descends.founded (hid : a.IsOld id) : a.Founded id := by
  induction id using h.induction with
  | none id hn =>
    refine .other fun harena => ?_
    rw [node?_eq, if_pos harena] at hn
    exact absurd (hid harena) (Nat.not_lt.mpr (Array.getElem?_eq_none_iff.mp hn))
  | some id node hn ih =>
    exact .node hn fun child hc => ih child hc fun harena => isOld_child hn (h hn hc harena) harena

theorem Descends.founded_child (hn : a.node? id = some node) (hc : child ∈ node.children) : a.Founded child :=
  h.founded fun harena => isOld_child hn (h hn hc harena) harena

theorem Descends.leafRecursion_leaves : a.LeafRecursion a.leaves := by
  intro id
  cases hn : a.node? id with
  | none => exact leaves_of_none hn
  | some node => exact leaves_of_some hn fun child => h.founded_child hn

theorem Descends.formRecursion_render : a.FormRecursion a.render := by
  intro id
  cases hn : a.node? id with
  | none => exact render_of_none hn
  | some node => exact render_of_some hn fun child => h.founded_child hn

/-- The walks end from every id, as there is nothing below one that has yet to be handed out. -/
theorem Descends.walks_end (id : NodeId) : a.leaves? id = some (a.leaves id) ∧ a.render? id = some (a.render id) := by
  cases hn : a.node? id with
  | none =>
    obtain ⟨hleaves?, hleaves, -⟩ := leavesFound_of_none hn
    obtain ⟨hrender?, hrender, -⟩ := formWritten_of_none hn
    exact ⟨hleaves ▸ hleaves?, hrender ▸ hrender?⟩
  | some node =>
    have hfounded : a.Founded id := .node hn fun child => h.founded_child hn
    exact ⟨hfounded.leaves?_eq, hfounded.render?_eq⟩

/-- The recursion for the leaves has one solution. -/
theorem Descends.leafRecursion_iff {g : NodeId → List NodeId} : a.LeafRecursion g ↔ g = a.leaves := by
  constructor
  · intro hg
    funext id
    induction id using h.induction with
    | none id hn => rw [hg id, hn, leaves_of_none hn]
    | some id node hn ih =>
      rw [hg id, h.leafRecursion_leaves id, hn]
      simp only [List.flatMap_congr ih]
  · rintro rfl
    exact h.leafRecursion_leaves

/-- The recursion for the rendering has one solution. -/
theorem Descends.formRecursion_iff {g : NodeId → String} : a.FormRecursion g ↔ g = a.render := by
  constructor
  · intro hg
    funext id
    induction id using h.induction with
    | none id hn => rw [hg id, hn, render_of_none hn]
    | some id node hn ih =>
      have hchildren : node.children.map (" " ++ g ·) = node.children.map (" " ++ a.render ·) :=
        List.map_congr_left fun child hc => congrArg (" " ++ ·) (ih child hc)
      rw [hg id, h.formRecursion_render id, hn]
      simp only [hchildren]
  · rintro rfl
    exact h.formRecursion_render

end

/-! ## The list of an arena -/

/-- The nodes of an arena have their places as ids. -/
theorem index_eq_of_toList {before after : List (NodeId × Node)} (h : a.toList = before ++ (id, node) :: after) :
    id.index = before.length := by
  have hat : a.toList[before.length]? = some (id, node) := by rw [h]; simp
  rw [toList, List.getElem?_mapIdx] at hat
  obtain ⟨node', -, hid⟩ := Option.map_eq_some_iff.mp hat
  exact congrArg (fun e => e.1.index) hid.symm

/-- What an arena lists first was made first. -/
theorem index_lt_of_toList {before after : List (NodeId × Node)} {e : NodeId × Node}
    (h : a.toList = before ++ (id, node) :: after) (he : e ∈ before) : e.1.index < id.index := by
  obtain ⟨id', node'⟩ := e
  obtain ⟨front, back, rfl⟩ := List.append_of_mem he
  have hindex := index_eq_of_toList h
  rw [List.append_assoc, List.cons_append] at h
  rw [hindex, index_eq_of_toList h]
  simp

end Arena

namespace Family

open Creation (Made)

variable {n : Nat} {f : Family} {made : List (Made n)}

/-- Each node refers only to ids that were handed out before it was made, by whichever arena. -/
def RefersBack (made : List (Made n)) : Prop :=
  ∀ (i : Nat) (hi : i < made.length), ∀ child ∈ made[i].node.children,
    child ∈ (made.take i).map fun m => m.handle.id

/-- Where nodes refer only to ids that were handed out before, every arena descends. -/
theorem Records.descends (h : f.Records made) (hback : RefersBack made) (p : Fin n) : (f.arena p).Descends := by
  intro id node child hn hc harena
  rw [← Arena.mem_toList, h.toList_eq] at hn
  obtain ⟨m, hm, hentry⟩ := List.mem_map.mp hn
  cases hentry
  obtain ⟨hm, hplace⟩ := List.mem_filter.mp hm
  obtain ⟨front, back, rfl⟩ := List.append_of_mem hm
  have hmem := hback front.length (by simp) child (by simpa using hc)
  rw [List.take_left] at hmem
  obtain ⟨m', hm', rfl⟩ := List.mem_map.mp hmem
  -- the child is of the same arena, so that lists it before its parent
  have hplace' : m'.place = p := by
    apply Fin.ext
    rw [← h.arena_eq (List.mem_append_left _ hm'), harena, f.id_arena]
  have hsplit : (m :: back).filter (fun m => m.place = p) = m :: back.filter (fun m => m.place = p) :=
    List.filter_cons_of_pos hplace
  have hlist := h.toList_eq p
  rw [List.filter_append, hsplit, List.map_append, List.map_cons] at hlist
  exact Arena.index_lt_of_toList (e := m'.entry) hlist
    (List.mem_map_of_mem (List.mem_filter.mpr ⟨hm', decide_eq_true hplace'⟩))

end Family

end Formula
