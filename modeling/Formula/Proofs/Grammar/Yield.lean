import Formula.Proofs.Arena.Stability
import Formula.Proofs.Grammar.Construction

/-!
# The leaves of what is built

The leaves below the root of a tree that was built in an arena are the leaves of the tree from left to right, and the
same holds for statements and programs (`leaves_buildProgram`). Each node is made behind its children, so that those
have their leaves already when it is made (`Arena.leaves_push`), and all that is made between them is behind both.
-/

namespace Formula

namespace Arena

variable {a : Arena} {id : NodeId} {node : Node}

/-- The leaves of a new node are those that its children had before. -/
theorem leaves_push (hleaf : node.isLeaf = false) (h : ∀ c ∈ node.children, a.Founded c) :
    (a.push node).leaves a.nextId = node.children.flatMap a.leaves := by
  have hext := extends_push a node
  rw [leaves_of_some (node?_push_nextId a node) fun c hc => (h c hc).of_extends hext, hleaf, if_neg Bool.false_ne_true]
  exact List.flatMap_congr fun c hc => (h c hc).leaves_of_extends hext

theorem IsLeaf.leaves_eq (h : a.IsLeaf id) : a.leaves id = [id] := by
  obtain ⟨node, hn, hleaf⟩ := h
  rw [leaves_of_some hn (by simp [Node.children_of_isLeaf hleaf]), if_pos hleaf]

end Arena

namespace Grammar

variable {a b : Arena} {id : NodeId}

theorem Tree.IsAt.founded {e : Tree} (h : e.IsAt a id) : a.Founded id := by
  induction h with
  | leaf hl => exact hl.founded
  | paren hn _ ih | negation hn _ ih => exact .node hn (by simpa [Node.children] using ih)
  | binary hn _ _ ihl ihr => exact .node hn (by simpa [Node.children] using ⟨ihl, ihr⟩)

theorem Statement.IsAt.founded {s : Statement} (h : s.IsAt a id) : a.Founded id := by
  cases h with
  | assignment hn htarget he => exact .node hn (by simpa [Node.children] using ⟨htarget.founded, he.founded⟩)
  | expression he => exact he.founded

theorem founded_of_forall₂ {ss : List Statement} {ids : List NodeId}
    (h : List.Forall₂ (Statement.IsAt a) ss ids) : ∀ id ∈ ids, a.Founded id := by
  induction h with
  | nil => nofun
  | cons hs _ ih => exact List.forall_mem_cons.mpr ⟨hs.founded, ih⟩

/-- The leaves of a tree that is built are its leaves. -/
theorem Tree.leaves_build (e : Tree) {a : Arena} (h : ∀ x ∈ e.leaves, a.IsLeaf x) :
    (e.build a).2.leaves (e.build a).1 = e.leaves := by
  induction e generalizing a with
  | leaf x => exact (h x (List.mem_singleton_self x)).leaves_eq
  | paren e ih =>
    have hfounded := (e.isAt_build h).founded
    rw [build_paren, Arena.leaves_push rfl (by simpa [Node.children] using hfounded)]
    simpa [Node.children, Tree.leaves] using ih h
  | negation e ih =>
    have hfounded := (e.isAt_build h).founded
    rw [build_negation, Arena.leaves_push rfl (by simpa [Node.children] using hfounded)]
    simpa [Node.children, Tree.leaves] using ih h
  | binary o l r ihl ihr =>
    have hl : ∀ x ∈ l.leaves, a.IsLeaf x := fun x hx => h x (List.mem_append_left _ hx)
    have hr : ∀ x ∈ r.leaves, (l.build a).2.IsLeaf x := fun x hx =>
      (l.extends_build a).isLeaf (h x (List.mem_append_right _ hx))
    -- the left operand keeps its leaves while the right one is built
    have hext := r.extends_build (l.build a).2
    have hlAt := l.isAt_build hl
    have hlLeaves := hlAt.founded.leaves_of_extends hext
    have hlFounded := hlAt.founded.of_extends hext
    have hrFounded := (r.isAt_build hr).founded
    rw [build_binary, Arena.leaves_push rfl (by simpa [Node.children] using ⟨hlFounded, hrFounded⟩)]
    simp [Node.children, Tree.leaves, hlLeaves, ihl hl, ihr hr]

theorem Statement.leaves_build (s : Statement) {a : Arena} (h : ∀ x ∈ s.leaves, a.IsLeaf x) :
    (s.build a).2.leaves (s.build a).1 = s.leaves := by
  cases s with
  | assignment target e =>
    have he : ∀ x ∈ e.leaves, a.IsLeaf x := fun x hx => h x (List.mem_cons_of_mem _ hx)
    have htarget := (e.extends_build a).isLeaf (h target List.mem_cons_self)
    have heFounded := (e.isAt_build he).founded
    rw [build_assignment, Arena.leaves_push rfl (by simpa [Node.children] using ⟨htarget.founded, heFounded⟩)]
    simp [Node.children, Statement.leaves, htarget.leaves_eq, e.leaves_build he]
  | expression e => exact e.leaves_build h

theorem leaves_buildAll (ss : List Statement) {a : Arena} (h : ∀ x ∈ ss.flatMap Statement.leaves, a.IsLeaf x) :
    (buildAll ss a).1.flatMap (buildAll ss a).2.leaves = ss.flatMap Statement.leaves := by
  induction ss generalizing a with
  | nil => rfl
  | cons s ss ih =>
    rw [List.flatMap_cons] at h
    have hs : ∀ x ∈ s.leaves, a.IsLeaf x := fun x hx => h x (List.mem_append_left _ hx)
    have hss := ih fun x hx => (s.extends_build a).isLeaf (h x (List.mem_append_right _ hx))
    -- the first statement keeps its leaves while the others are built
    have hkeep := (s.isAt_build hs).founded.leaves_of_extends (extends_buildAll ss _)
    rw [buildAll, List.flatMap_cons, List.flatMap_cons, hkeep, s.leaves_build hs, hss]

/-- The leaves of a program that is built are its leaves. -/
theorem leaves_buildProgram {ss : List Statement} {a : Arena} (h : ∀ x ∈ ss.flatMap Statement.leaves, a.IsLeaf x) :
    (buildProgram ss a).2.leaves (buildProgram ss a).1 = ss.flatMap Statement.leaves := by
  have hleaves := leaves_buildAll ss h
  have hat := isAt_buildAll ss h
  unfold buildProgram
  split
  · rename_i x b hb
    rw [hb] at hleaves
    simpa using hleaves
  · rename_i xs b _ hb
    rw [hb] at hleaves hat
    exact (Arena.leaves_push rfl (founded_of_forall₂ hat)).trans hleaves

end Grammar

end Formula
