import Formula.Proofs.Grammar.Yield
import Formula.Proofs.Rendering.Form

/-!
# The rendering of what is built

A tree whose leaves have values is a form (`Tree.form`). What is built for a tree in an arena where its leaves have
these values reads as the text of its form (`Tree.render_build`), and the same holds for statements and programs
(`render_buildProgram`). As with the leaves, each node is made behind its children, which have their rendering already
when it is made (`Arena.render_push`).
-/

namespace Formula

namespace Arena

variable {a : Arena} {id : NodeId} {node : Node}

/-- The id means a name or a numeral, the given one. -/
def HasLeaf (a : Arena) (id : NodeId) (node : Node) : Prop :=
  a.node? id = some node ∧ node.isLeaf = true

theorem HasLeaf.isLeaf (h : a.HasLeaf id node) : a.IsLeaf id := ⟨node, h⟩

theorem HasLeaf.extends {b : Arena} (h : a.HasLeaf id node) (hb : a.Extends b) : b.HasLeaf id node :=
  ⟨hb.node? h.1, h.2⟩

theorem HasLeaf.render_eq (h : a.HasLeaf id node) : a.render id = node.label := by
  rw [render_of_some h.1 (by simp [Node.children_of_isLeaf h.2]), if_pos h.2]

/-- A new node reads as its label in front of what its children read as before. -/
theorem render_push (hleaf : node.isLeaf = false) (h : ∀ c ∈ node.children, a.Founded c) :
    ((a.push node).render a.nextId).toList = group node.label (node.children.map fun c => (a.render c).toList) := by
  have hext := extends_push a node
  have hchildren : node.children.map (" " ++ (a.push node).render ·) = node.children.map (" " ++ a.render ·) :=
    List.map_congr_left fun c hc => congrArg (" " ++ ·) ((h c hc).render_of_extends hext)
  rw [render_of_some (node?_push_nextId a node) fun c hc => (h c hc).of_extends hext, hleaf, if_neg Bool.false_ne_true,
    hchildren]
  simp [group, String.toList_join, List.flatMap_map]

end Arena

namespace Grammar

/-- The form of a tree, with the values of its leaves. -/
def Tree.form (value : NodeId → Node) : Tree → Form
  | leaf id => .leaf (value id)
  | paren e => .paren (e.form value)
  | negation e => .negation (e.form value)
  | binary o l r => .binary o (l.form value) (r.form value)

/-- The form of a statement. -/
def Statement.form (value : NodeId → Node) : Statement → Form
  | assignment target e => .assignment (.leaf (value target)) (e.form value)
  | expression e => e.form value

variable {value : NodeId → Node} {a : Arena}

theorem Tree.leaves_form (e : Tree) : (e.form value).leaves = e.leaves.map value := by
  induction e with
  | leaf id => rfl
  | paren e ih | negation e ih => exact ih
  | binary o l r ihl ihr => simp [form, Tree.leaves, Form.leaves, ihl, ihr]

/-- The leaves of a form are the values of the leaves. -/
theorem Statement.leaves_form (s : Statement) : (s.form value).leaves = s.leaves.map value := by
  cases s with
  | assignment target e => simp [form, Statement.leaves, Form.leaves, e.leaves_form]
  | expression e => exact e.leaves_form

/-- What is built for a tree reads as its form. -/
theorem Tree.render_build (e : Tree) (h : ∀ x ∈ e.leaves, a.HasLeaf x (value x)) :
    ((e.build a).2.render (e.build a).1).toList = (e.form value).text := by
  induction e generalizing a with
  | leaf x => exact congrArg String.toList (h x (List.mem_singleton_self x)).render_eq
  | paren e ih =>
    have hfounded := (e.isAt_build fun x hx => (h x hx).isLeaf).founded
    rw [build_paren, Arena.render_push rfl (by simpa [Node.children] using hfounded)]
    simp [Node.children, Node.label, form, Form.text, ih h]
  | negation e ih =>
    have hfounded := (e.isAt_build fun x hx => (h x hx).isLeaf).founded
    rw [build_negation, Arena.render_push rfl (by simpa [Node.children] using hfounded)]
    simp [Node.children, Node.label, form, Form.text, ih h]
  | binary o l r ihl ihr =>
    have hl : ∀ x ∈ l.leaves, a.HasLeaf x (value x) := fun x hx => h x (List.mem_append_left _ hx)
    have hr : ∀ x ∈ r.leaves, (l.build a).2.HasLeaf x (value x) := fun x hx =>
      (h x (List.mem_append_right _ hx)).extends (l.extends_build a)
    -- the left operand keeps its rendering while the right one is built
    have hext := r.extends_build (l.build a).2
    have hlAt := l.isAt_build fun x hx => (hl x hx).isLeaf
    have hlRender := hlAt.founded.render_of_extends hext
    have hlFounded := hlAt.founded.of_extends hext
    have hrFounded := (r.isAt_build fun x hx => (hr x hx).isLeaf).founded
    rw [build_binary, Arena.render_push rfl (by simpa [Node.children] using ⟨hlFounded, hrFounded⟩)]
    simp [Node.children, Node.label, form, Form.text, hlRender, ihl hl, ihr hr]

theorem Statement.render_build (s : Statement) (h : ∀ x ∈ s.leaves, a.HasLeaf x (value x)) :
    ((s.build a).2.render (s.build a).1).toList = (s.form value).text := by
  cases s with
  | assignment target e =>
    have he : ∀ x ∈ e.leaves, a.HasLeaf x (value x) := fun x hx => h x (List.mem_cons_of_mem _ hx)
    have htarget := (h target List.mem_cons_self).extends (e.extends_build a)
    have heFounded := (e.isAt_build fun x hx => (he x hx).isLeaf).founded
    rw [build_assignment, Arena.render_push rfl (by simpa [Node.children] using ⟨htarget.isLeaf.founded, heFounded⟩)]
    simp [Node.children, Node.label, form, Form.text, htarget.render_eq, e.render_build he]
  | expression e => exact e.render_build h

theorem render_buildAll (ss : List Statement) (h : ∀ x ∈ ss.flatMap Statement.leaves, a.HasLeaf x (value x)) :
    (buildAll ss a).1.map (fun x => ((buildAll ss a).2.render x).toList) =
      (ss.map (Statement.form value)).map Form.text := by
  induction ss generalizing a with
  | nil => rfl
  | cons s ss ih =>
    rw [List.flatMap_cons] at h
    have hs : ∀ x ∈ s.leaves, a.HasLeaf x (value x) := fun x hx => h x (List.mem_append_left _ hx)
    have hss := ih fun x hx => (h x (List.mem_append_right _ hx)).extends (s.extends_build a)
    have hat := s.isAt_build fun x hx => (hs x hx).isLeaf
    have hkeep := hat.founded.render_of_extends (extends_buildAll ss (s.build a).2)
    rw [buildAll, List.map_cons, List.map_cons, List.map_cons, hkeep, s.render_build hs, hss]

/-- What is built for a program reads as the forms of its statements. -/
theorem render_buildProgram {ss : List Statement} (h : ∀ x ∈ ss.flatMap Statement.leaves, a.HasLeaf x (value x)) :
    ((buildProgram ss a).2.render (buildProgram ss a).1).toList = programText (ss.map (Statement.form value)) := by
  have hrender := render_buildAll ss h
  have hat := isAt_buildAll ss fun x hx => (h x hx).isLeaf
  have hlength : (buildAll ss a).1.length = (ss.map (Statement.form value)).length := by
    simpa using congrArg List.length hrender
  unfold buildProgram
  split
  · rename_i x b hb
    rw [hb] at hrender hlength
    obtain ⟨f, hf⟩ := List.length_eq_one_iff.mp hlength.symm
    rw [hf] at hrender ⊢
    exact List.singleton_inj.mp hrender
  · rename_i xs b hne hb
    rw [hb] at hrender hat hlength
    rw [Arena.render_push rfl (founded_of_forall₂ hat)]
    rcases programText_cases (ss.map (Statement.form value)) with ⟨f, hf⟩ | htext
    · rw [hf] at hlength
      obtain ⟨x, rfl⟩ := List.length_eq_one_iff.mp hlength
      exact absurd rfl (hne x)
    · rw [htext]
      exact congrArg (group "seq") hrender

end Grammar

end Formula
