import Formula.Proofs.Arena.Postorder
import Formula.Proofs.Grammar.Construction

/-!
# What is built is in post-order

The nodes that are built for a tree whose leaves are there are its composite nodes in post-order, and none of them is
left over: each but the root is a child of one of them. The same holds for statements, and for a program
(`plants_buildProgram`).
-/

namespace Formula.Grammar

variable {a : Arena}

theorem Tree.plants_build (e : Tree) (h : ∀ x ∈ e.leaves, a.IsLeaf x) :
    a.Plants (e.build a).2 [(e.build a).1] e.leaves := by
  induction e generalizing a with
  | leaf x => exact (h x (List.mem_singleton_self x)).plants
  | paren e ih | negation e ih => exact (ih h).push rfl rfl
  | binary o l r ihl ihr =>
    have hl := ihl fun x hx => h x (List.mem_append_left _ hx)
    have hr := ihr fun x hx => (l.extends_build a).isLeaf (h x (List.mem_append_right _ hx))
    exact (hl.append hr).push rfl rfl

/-- The target of an assignment is there already, as a leaf to the left of its value. -/
theorem Statement.plants_build (s : Statement) (h : ∀ x ∈ s.leaves, a.IsLeaf x) :
    a.Plants (s.build a).2 [(s.build a).1] s.leaves := by
  cases s with
  | assignment target e =>
    have htarget := (h target List.mem_cons_self).plants
    have he := e.plants_build fun x hx => h x (List.mem_cons_of_mem _ hx)
    exact (htarget.append he).push rfl rfl
  | expression e => exact e.plants_build h

theorem plants_buildAll (ss : List Statement) (h : ∀ x ∈ ss.flatMap Statement.leaves, a.IsLeaf x) :
    a.Plants (buildAll ss a).2 (buildAll ss a).1 (ss.flatMap Statement.leaves) := by
  induction ss generalizing a with
  | nil => exact a.plants_nil
  | cons s ss ih =>
    rw [List.flatMap_cons] at h ⊢
    have hs := s.plants_build fun x hx => h x (List.mem_append_left _ hx)
    have hss := ih fun x hx => (s.extends_build a).isLeaf (h x (List.mem_append_right _ hx))
    exact hs.append hss

/-- All that is built for a program is one tree in post-order. -/
theorem plants_buildProgram (ss : List Statement) (h : ∀ x ∈ ss.flatMap Statement.leaves, a.IsLeaf x) :
    a.Plants (buildProgram ss a).2 [(buildProgram ss a).1] (ss.flatMap Statement.leaves) := by
  have hss := plants_buildAll ss h
  unfold buildProgram
  split
  · rename_i x b hb
    rwa [hb] at hss
  · rename_i xs b _ hb
    rw [hb] at hss
    exact hss.push rfl rfl

end Formula.Grammar
