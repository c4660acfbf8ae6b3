import Formula.Arena.Basic

/-!
# Walks through a tree

The leaves of a tree, left to right, and its rendering as a nested form. Both walks keep what is still to be done on a
stack, so that no tree is too deep for them, and look every id up in the whole arena. Nothing keeps a node from being
its own descendant, so a walk may go on for ever; then it has no result.
-/

namespace Formula.Arena

/-! ## Leaves -/

/-- One turn of the walk for leaves: the id on top of the stack is taken off, and `walk` goes on. -/
@[inline]
def leafBody (a : Arena) (walk : Array NodeId → List NodeId → Option (Array NodeId)) (found : Array NodeId) :
    List NodeId → Option (Array NodeId)
  | [] => some found
  | id :: rest =>
    match a.node? id with
    | none => walk found rest
    | some node =>
      if node.isLeaf then walk (found.push id) rest
      else walk found (node.children ++ rest)

/-- A turn goes on once at most, so it keeps whatever relates the ends of two walks. -/
theorem leafBody_rel {walk walk' : Array NodeId → List NodeId → Option (Array NodeId)}
    {r : Option (Array NodeId) → Option (Array NodeId) → Prop} (hr : ∀ x, r x x)
    (h : ∀ found stack, r (walk found stack) (walk' found stack)) (a : Arena) (found : Array NodeId)
    (stack : List NodeId) : r (a.leafBody walk found stack) (a.leafBody walk' found stack) := by
  unfold leafBody
  split
  · exact hr _
  · split
    · exact h _ _
    · split <;> exact h _ _

/-- Walks through the ids in turn; the leaves come behind those already found. -/
def collectLeaves? (a : Arena) : Array NodeId → List NodeId → Option (Array NodeId) :=
  a.leafBody a.collectLeaves?
partial_fixpoint monotonicity fun _ _ h => a.leafBody_rel (fun _ => by constructor) h

theorem collectLeaves?_eq (a : Arena) (found : Array NodeId) (stack : List NodeId) :
    a.collectLeaves? found stack = a.leafBody a.collectLeaves? found stack := by
  conv => lhs; rw [collectLeaves?]

/-- The leaves below an id, left to right, if the walk ends. -/
def leaves? (a : Arena) (id : NodeId) : Option (List NodeId) :=
  (a.collectLeaves? #[] [id]).map Array.toList

/-- The leaves below an id; there are none if the walk goes on for ever. -/
def leaves (a : Arena) (id : NodeId) : List NodeId :=
  (a.leaves? id).getD []

/-! ## Forms -/

/-- What a reference without a node reads as. -/
def dangling : String := "<dangling>"

/-- What is still to be written. -/
inductive Pending
  /-- An opening parenthesis and a head. -/
  | head (text : String)
  | space
  | close
  | visit (id : NodeId)

/-- What is to be written for a composite node, in front of the rest: its head and its children between parentheses. -/
def Pending.ofNode (node : Node) (rest : List Pending) : List Pending :=
  head node.label :: node.children.foldr (fun child stack => space :: visit child :: stack) (close :: rest)

/-- One turn of the walk for the form: what is pending on top of the stack is written, and `walk` goes on. -/
@[inline]
def formBody (a : Arena) (walk : String → List Pending → Option String) (written : String) :
    List Pending → Option String
  | [] => some written
  | .head text :: rest => walk (written ++ "(" ++ text) rest
  | .space :: rest => walk (written ++ " ") rest
  | .close :: rest => walk (written ++ ")") rest
  | .visit id :: rest =>
    match a.node? id with
    | none => walk (written ++ dangling) rest
    | some node =>
      if node.isLeaf then walk (written ++ node.label) rest
      else walk written (Pending.ofNode node rest)

theorem formBody_rel {walk walk' : String → List Pending → Option String} {r : Option String → Option String → Prop}
    (hr : ∀ x, r x x) (h : ∀ written stack, r (walk written stack) (walk' written stack)) (a : Arena)
    (written : String) (stack : List Pending) : r (a.formBody walk written stack) (a.formBody walk' written stack) := by
  unfold formBody
  split
  · exact hr _
  · exact h _ _
  · exact h _ _
  · exact h _ _
  · split
    · exact h _ _
    · split <;> exact h _ _

/-- Writes what is pending in turn, behind what is already written. -/
def writeForm? (a : Arena) : String → List Pending → Option String :=
  a.formBody a.writeForm?
partial_fixpoint monotonicity fun _ _ h => a.formBody_rel (fun _ => by constructor) h

theorem writeForm?_eq (a : Arena) (written : String) (stack : List Pending) :
    a.writeForm? written stack = a.formBody a.writeForm? written stack := by
  conv => lhs; rw [writeForm?]

/-- The tree below an id as a nested form, if the walk ends. -/
def render? (a : Arena) (id : NodeId) : Option String :=
  a.writeForm? "" [.visit id]

/-- The tree below an id as a nested form; nothing is written if the walk goes on for ever. -/
def render (a : Arena) (id : NodeId) : String :=
  (a.render? id).getD ""

end Formula.Arena
