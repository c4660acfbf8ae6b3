import Mathlib.Data.List.Forall2
import Formula.Proofs.Arena.Extension
import Formula.Proofs.Grammar.Derivation

/-!
# Trees in an arena

`e.IsAt a id` says that the id means the root of the tree `e` in the arena `a`; an id is the root of at most one tree
(`Tree.IsAt.unique`). `e.build a` makes the nodes of a tree that are not leaves, the children before their parent and
the left before the right, and what it makes is the tree (`Tree.isAt_build`). The same for statements and programs: a
program of one statement is that statement, and any other a sequence of its statements.
-/

namespace Formula.Grammar

/-! ## The tree below an id -/

/-- The id means the root of the tree. -/
inductive Tree.IsAt (a : Arena) : Tree → NodeId → Prop
  | leaf {x : NodeId} : a.IsLeaf x → IsAt a (.leaf x) x
  | paren {e : Tree} {x id : NodeId} : a.node? id = some (.paren x) → IsAt a e x → IsAt a (.paren e) id
  | negation {e : Tree} {x id : NodeId} : a.node? id = some (.negation x) → IsAt a e x → IsAt a (.negation e) id
  | binary {o : Operator} {l r : Tree} {x y id : NodeId} :
      a.node? id = some (.binary o x y) → IsAt a l x → IsAt a r y → IsAt a (.binary o l r) id

/-- The id means the root of the statement. -/
inductive Statement.IsAt (a : Arena) : Statement → NodeId → Prop
  | assignment {e : Tree} {target x id : NodeId} :
      a.node? id = some (.assignment target x) → a.IsLeaf target → e.IsAt a x → IsAt a (.assignment target e) id
  | expression {e : Tree} {id : NodeId} : e.IsAt a id → IsAt a (.expression e) id

/-- The id means the root of the program. -/
inductive ProgramIsAt (a : Arena) : List Statement → NodeId → Prop
  | single {s : Statement} {id : NodeId} : s.IsAt a id → ProgramIsAt a [s] id
  | sequence {ss : List Statement} {xs : List NodeId} {id : NodeId} :
      2 ≤ ss.length → a.node? id = some (.sequence xs) → List.Forall₂ (Statement.IsAt a) ss xs → ProgramIsAt a ss id

section

variable {a b : Arena} {id : NodeId}

theorem Tree.IsAt.extends (h : a.Extends b) {e : Tree} (he : e.IsAt a id) : e.IsAt b id := by
  induction he with
  | leaf hl => exact .leaf (h.isLeaf hl)
  | paren hn _ ih => exact .paren (h.node? hn) ih
  | negation hn _ ih => exact .negation (h.node? hn) ih
  | binary hn _ _ ihl ihr => exact .binary (h.node? hn) ihl ihr

theorem Statement.IsAt.extends (h : a.Extends b) {s : Statement} (hs : s.IsAt a id) : s.IsAt b id := by
  cases hs with
  | assignment hn ht he => exact .assignment (h.node? hn) (h.isLeaf ht) (he.extends h)
  | expression he => exact .expression (he.extends h)

theorem not_isLeaf {node : Node} (hn : a.node? id = some node) (h : node.isLeaf = false) : ¬ a.IsLeaf id := by
  rintro ⟨node', hn', h'⟩
  cases Option.some.inj (hn.symm.trans hn')
  rw [h] at h'
  cases h'

/-- An id is the root of at most one tree. -/
theorem Tree.IsAt.unique {e e' : Tree} (he : e.IsAt a id) (he' : e'.IsAt a id) : e = e' := by
  induction he generalizing e' with
  | leaf hl =>
    cases he' with
    | leaf _ => rfl
    | paren hn _ | negation hn _ | binary hn _ _ => exact absurd hl (not_isLeaf hn rfl)
  | paren hn _ ih =>
    cases he' with
    | leaf hl => exact absurd hl (not_isLeaf hn rfl)
    | paren hn' he' =>
      cases Option.some.inj (hn.symm.trans hn')
      rw [ih he']
    | negation hn' _ | binary hn' _ _ => cases Option.some.inj (hn.symm.trans hn')
  | negation hn _ ih =>
    cases he' with
    | leaf hl => exact absurd hl (not_isLeaf hn rfl)
    | negation hn' he' =>
      cases Option.some.inj (hn.symm.trans hn')
      rw [ih he']
    | paren hn' _ | binary hn' _ _ => cases Option.some.inj (hn.symm.trans hn')
  | binary hn _ _ ihl ihr =>
    cases he' with
    | leaf hl => exact absurd hl (not_isLeaf hn rfl)
    | binary hn' hl hr =>
      cases Option.some.inj (hn.symm.trans hn')
      rw [ihl hl, ihr hr]
    | paren hn' _ | negation hn' _ => cases Option.some.inj (hn.symm.trans hn')

/-- The root of an expression is neither an assignment nor a sequence. -/
theorem Tree.IsAt.node?_ne {e : Tree} (he : e.IsAt a id) {node : Node} (hn : a.node? id = some node) :
    (∀ x y, node ≠ .assignment x y) ∧ ∀ xs, node ≠ .sequence xs := by
  constructor <;> intros <;> rintro rfl <;> cases he with
  | leaf hl => exact not_isLeaf hn rfl hl
  | paren hn' _ | negation hn' _ | binary hn' _ _ => cases Option.some.inj (hn.symm.trans hn')

theorem Statement.IsAt.unique {s s' : Statement} (hs : s.IsAt a id) (hs' : s'.IsAt a id) : s = s' := by
  cases hs with
  | assignment hn _ he =>
    cases hs' with
    | assignment hn' _ he' =>
      cases Option.some.inj (hn.symm.trans hn')
      rw [he.unique he']
    | expression he' => exact absurd rfl ((he'.node?_ne hn).1 _ _)
  | expression he =>
    cases hs' with
    | assignment hn' _ _ => exact absurd rfl ((he.node?_ne hn').1 _ _)
    | expression he' => rw [he.unique he']

theorem Statement.IsAt.node?_ne {s : Statement} (hs : s.IsAt a id) (xs : List NodeId) :
    a.node? id ≠ some (.sequence xs) := by
  intro hn
  cases hs with
  | assignment hn' _ _ => cases Option.some.inj (hn.symm.trans hn')
  | expression he => exact (he.node?_ne hn).2 xs rfl

/-- An id is the root of at most one program. -/
theorem ProgramIsAt.unique {ss ss' : List Statement} (h : ProgramIsAt a ss id) (h' : ProgramIsAt a ss' id) :
    ss = ss' := by
  cases h with
  | single hs =>
    cases h' with
    | single hs' => rw [hs.unique hs']
    | sequence _ hn _ => exact absurd hn (hs.node?_ne _)
  | sequence _ hn hss =>
    cases h' with
    | single hs' => exact absurd hn (hs'.node?_ne _)
    | sequence _ hn' hss' =>
      cases Option.some.inj (hn.symm.trans hn')
      have hu : Relator.LeftUnique (Statement.IsAt a) := fun _ _ _ hs hs' => hs.unique hs'
      exact List.left_unique_forall₂' hu hss hss'

end

/-! ## Making a tree -/

/-- Makes the nodes of a tree that are not leaves, and gives its root. -/
def Tree.build : Tree → Arena → NodeId × Arena
  | leaf x, a => (x, a)
  | paren e, a => let (x, a) := e.build a; (a.nextId, a.push (.paren x))
  | negation e, a => let (x, a) := e.build a; (a.nextId, a.push (.negation x))
  | binary o l r, a => let (x, a) := l.build a; let (y, a) := r.build a; (a.nextId, a.push (.binary o x y))

/-- Makes the nodes of a statement. -/
def Statement.build : Statement → Arena → NodeId × Arena
  | assignment target e, a => let (x, a) := e.build a; (a.nextId, a.push (.assignment target x))
  | expression e, a => e.build a

/-- Makes the nodes of statements, from the first on. -/
def buildAll : List Statement → Arena → List NodeId × Arena
  | [], a => ([], a)
  | s :: ss, a => let (x, a) := s.build a; let (xs, a) := buildAll ss a; (x :: xs, a)

/-- Makes the nodes of a program. -/
def buildProgram (ss : List Statement) (a : Arena) : NodeId × Arena :=
  match buildAll ss a with
  | ([x], a) => (x, a)
  | (xs, a) => (a.nextId, a.push (.sequence xs))

section

variable (e l r : Tree) (o : Operator) (target : NodeId) (a : Arena)

theorem Tree.build_paren : (paren e).build a = ((e.build a).2.nextId, (e.build a).2.push (.paren (e.build a).1)) := rfl

theorem Tree.build_negation :
    (negation e).build a = ((e.build a).2.nextId, (e.build a).2.push (.negation (e.build a).1)) := rfl

theorem Tree.build_binary : (binary o l r).build a = ((r.build (l.build a).2).2.nextId,
    (r.build (l.build a).2).2.push (.binary o (l.build a).1 (r.build (l.build a).2).1)) := rfl

theorem Statement.build_assignment : (assignment target e).build a =
    ((e.build a).2.nextId, (e.build a).2.push (.assignment target (e.build a).1)) := rfl

end

theorem Tree.extends_build (e : Tree) (a : Arena) : a.Extends (e.build a).2 := by
  induction e generalizing a with
  | leaf x => exact a.extends_refl
  | paren e ih | negation e ih => exact (ih a).trans (Arena.extends_push _ _)
  | binary o l r ihl ihr => exact ((ihl a).trans (ihr _)).trans (Arena.extends_push _ _)

theorem Statement.extends_build (s : Statement) (a : Arena) : a.Extends (s.build a).2 := by
  cases s with
  | assignment target e => exact (e.extends_build a).trans (Arena.extends_push _ _)
  | expression e => exact e.extends_build a

theorem extends_buildAll (ss : List Statement) (a : Arena) : a.Extends (buildAll ss a).2 := by
  induction ss generalizing a with
  | nil => exact a.extends_refl
  | cons s ss ih => exact (s.extends_build a).trans (ih _)

theorem extends_buildProgram (ss : List Statement) (a : Arena) : a.Extends (buildProgram ss a).2 := by
  have h := extends_buildAll ss a
  unfold buildProgram
  split
  · rename_i heq
    rwa [heq] at h
  · rename_i heq
    rw [heq] at h
    exact h.trans (Arena.extends_push _ _)

theorem buildAll_append (ss ss' : List Statement) (a : Arena) :
    buildAll (ss ++ ss') a =
      ((buildAll ss a).1 ++ (buildAll ss' (buildAll ss a).2).1, (buildAll ss' (buildAll ss a).2).2) := by
  induction ss generalizing a with
  | nil => rfl
  | cons s ss ih => simp [buildAll, ih]

/-- What is built is the tree, if its leaves are there. -/
theorem Tree.isAt_build (e : Tree) {a : Arena} (h : ∀ x ∈ e.leaves, a.IsLeaf x) :
    e.IsAt (e.build a).2 (e.build a).1 := by
  induction e generalizing a with
  | leaf x => exact .leaf (h x (List.mem_singleton_self x))
  | paren e ih => exact .paren (Arena.node?_push_nextId _ _) ((ih h).extends (Arena.extends_push _ _))
  | negation e ih => exact .negation (Arena.node?_push_nextId _ _) ((ih h).extends (Arena.extends_push _ _))
  | binary o l r ihl ihr =>
    have hl := ihl fun x hx => h x (List.mem_append_left _ hx)
    have hr := ihr fun x hx => (l.extends_build a).isLeaf (h x (List.mem_append_right _ hx))
    refine .binary (Arena.node?_push_nextId _ _) (hl.extends ?_) (hr.extends (Arena.extends_push _ _))
    exact (r.extends_build _).trans (Arena.extends_push _ _)

theorem Statement.isAt_build (s : Statement) {a : Arena} (h : ∀ x ∈ s.leaves, a.IsLeaf x) :
    s.IsAt (s.build a).2 (s.build a).1 := by
  cases s with
  | assignment target e =>
    have he := e.isAt_build fun x hx => h x (List.mem_cons_of_mem _ hx)
    have ht := (e.extends_build a).isLeaf (h target List.mem_cons_self)
    refine .assignment (Arena.node?_push_nextId _ _) ?_ (he.extends (Arena.extends_push _ _))
    exact (Arena.extends_push _ _).isLeaf ht
  | expression e => exact .expression (e.isAt_build h)

theorem isAt_buildAll (ss : List Statement) {a : Arena} (h : ∀ x ∈ ss.flatMap Statement.leaves, a.IsLeaf x) :
    List.Forall₂ (Statement.IsAt (buildAll ss a).2) ss (buildAll ss a).1 := by
  induction ss generalizing a with
  | nil => exact .nil
  | cons s ss ih =>
    rw [List.flatMap_cons] at h
    have hs := s.isAt_build fun x hx => h x (List.mem_append_left _ hx)
    have hss := ih fun x hx => (s.extends_build a).isLeaf (h x (List.mem_append_right _ hx))
    exact .cons (hs.extends (extends_buildAll ss _)) hss

/-- What is built for a program is the program, if its leaves are there. -/
theorem programIsAt_buildProgram {ss : List Statement} (hne : ss ≠ []) {a : Arena}
    (h : ∀ x ∈ ss.flatMap Statement.leaves, a.IsLeaf x) :
    ProgramIsAt (buildProgram ss a).2 ss (buildProgram ss a).1 := by
  have hss := isAt_buildAll ss h
  unfold buildProgram
  cases ss with
  | nil => exact absurd rfl hne
  | cons s ss =>
    cases ss with
    | nil => cases hss with
      | cons hs _ => exact .single hs
    | cons s' ss =>
      refine .sequence (by simp) (Arena.node?_push_nextId _ _) (hss.imp fun _ _ hs => hs.extends ?_)
      exact Arena.extends_push _ _

end Formula.Grammar
