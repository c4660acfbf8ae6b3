import Formula.Node

/-!
# Arenas

An arena owns nodes and hands out an id for each. Nodes are only ever added, so an id keeps meaning the same node
(`node?_push_of_ne`); an id of another arena means nothing here, even if this one has a node at its index. A handle is
an id together with the form of its node.
-/

namespace Formula

/-- The nodes made so far, in order. -/
structure Arena where
  /-- What tells this arena from all others. -/
  id : Nat
  nodes : Array Node

/-- The id of a node of known form. -/
structure Handle (v : Variant) where
  id : NodeId
deriving DecidableEq

namespace Handle

def text {v : Variant} (handle : Handle v) : String :=
  Text.tagged "Handle" (toString handle.id.index)

end Handle

namespace Arena

def empty (id : Nat) : Arena :=
  ⟨id, #[]⟩

def size (a : Arena) : Nat :=
  a.nodes.size

def isEmpty (a : Arena) : Bool :=
  a.nodes.isEmpty

/-- The id that the next node gets. -/
def nextId (a : Arena) : NodeId :=
  ⟨a.id, a.size⟩

/-- The arena with one more node, which has the id `a.nextId`. -/
def push (a : Arena) (node : Node) : Arena :=
  { a with nodes := a.nodes.push node }

/-- Adds the node of a form with the given fields and gives its handle. -/
def add (a : Arena) (v : Variant) (fields : v.Fields) : Handle v × Arena :=
  (⟨a.nextId⟩, a.push (.ofFields v fields))

/-- The node that an id means. -/
def node? (a : Arena) (id : NodeId) : Option Node :=
  if id.arena = a.id then a.nodes[id.index]? else none

/-- The fields of the node that a handle means. -/
def get? {v : Variant} (a : Arena) (handle : Handle v) : Option v.Fields :=
  (a.node? handle.id).bind (Node.fields? v)

/-- The children of the node that an id means. -/
def children (a : Arena) (id : NodeId) : List NodeId :=
  ((a.node? id).map Node.children).getD []

/-- The nodes with their ids, in the order they were made. -/
def toList (a : Arena) : List (NodeId × Node) :=
  a.nodes.toList.mapIdx fun index node => (⟨a.id, index⟩, node)

/-- Whether two ids mean equal nodes in two arenas, fixed-point values compared as numbers, or both mean nothing. -/
def sameNode (a b : Arena) (i j : NodeId) : Bool :=
  match a.node? i, b.node? j with
  | some x, some y => x.numEq y
  | none, none => true
  | _, _ => false

/-! ## Laws -/

section

variable (a : Arena) (node : Node)

@[simp] theorem size_push : (a.push node).size = a.size + 1 := by
  simp [push, size]

@[simp] theorem id_push : (a.push node).id = a.id := rfl

theorem node?_eq (id : NodeId) : a.node? id = if id.arena = a.id then a.nodes[id.index]? else none := rfl

theorem node?_nextId : a.node? a.nextId = none := by
  simp [node?_eq, nextId, size]

@[simp] theorem node?_push_nextId : (a.push node).node? a.nextId = some node := by
  simp [node?_eq, push, nextId, size]

/-- A node keeps its meaning when another is made. -/
theorem node?_push_of_ne {id : NodeId} (h : id ≠ a.nextId) : (a.push node).node? id = a.node? id := by
  obtain ⟨arena, index⟩ := id
  simp only [node?_eq, push, Array.getElem?_push]
  by_cases ha : arena = a.id
  · subst ha
    have hi : index ≠ a.nodes.size := fun hi => h (by rw [nextId, size, hi])
    simp [hi]
  · simp [ha]

theorem get?_add (v : Variant) (fields : v.Fields) : (a.add v fields).2.get? (a.add v fields).1 = some fields := by
  simp [add, get?, Node.fields?_ofFields]

end

end Arena

end Formula
