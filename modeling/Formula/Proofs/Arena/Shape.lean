import Formula.Grammar.Program
import Formula.Proofs.Arena.Stability

/-!
# Well-shaped arenas

In a well-shaped arena every node was made after its children, and the children bind as tight as the node needs them
to: an operand that binds looser than its operator stands between parentheses. A node that fits keeps the arena well
shaped (`WellShaped.push`), so what is to be shown of a parser is only that it makes such nodes.
-/

namespace Formula

namespace Grammar.Level

/-- The level above: what stands to the right of an operator of the level. -/
def tighter : Level → Level
  | sum => product
  | product => factor
  | factor => factor

/-- Whether a node can be the root of what is read at the level: it is an expression, and no operation that binds
looser than the level. -/
def admits : Level → Node → Bool
  | _, .assignment .. | _, .sequence _ => false
  | sum, _ => true
  | product, .binary .add .. | product, .binary .sub .. => false
  | product, _ => true
  | factor, .binary .. => false
  | factor, _ => true

theorem admits_of_tighter {l : Level} {node : Node} (h : l.tighter.admits node = true) : l.admits node = true := by
  cases l with
  | sum => cases node <;> first | rfl | cases h
  | product => cases node <;> first | rfl | cases h
  | factor => exact h

theorem admits_of_factor (l : Level) {node : Node} (h : factor.admits node = true) : l.admits node = true := by
  cases l with
  | sum => exact admits_of_tighter (l := sum) (admits_of_tighter (l := product) h)
  | product => exact admits_of_tighter (l := product) h
  | factor => exact h

end Grammar.Level

/-- The level of the operations with the operator. -/
def Operator.level : Operator → Grammar.Level
  | add | sub => .sum
  | mul | div => .product

theorem Operator.level_admits (o : Operator) (left right : NodeId) :
    o.level.admits (.binary o left right) = true := by
  cases o <;> rfl

/-- Whether the node is a name. -/
def Node.isName : Node → Bool
  | identifier _ => true
  | _ => false

/-- Whether the node can be a statement of a program. -/
def Node.isStatement : Node → Bool
  | sequence _ => false
  | _ => true

theorem Grammar.Level.isStatement_of_admits {l : Level} {node : Node} (h : l.admits node = true) :
    node.isStatement = true := by
  cases node <;> first | rfl | (cases l <;> cases h)

theorem Grammar.Level.admits_of_isLeaf (l : Level) {node : Node} (h : node.isLeaf = true) : l.admits node = true := by
  cases node <;> first | (cases l <;> rfl) | cases h

/-- The id means a node of which the property holds. -/
def Arena.Holds (a : Arena) (p : Node → Bool) (id : NodeId) : Prop :=
  ∃ node, a.node? id = some node ∧ p node = true

section

variable {a b : Arena} {p q : Node → Bool} {id : NodeId}

theorem Arena.Holds.mono (h : a.Holds p id) (hpq : ∀ node, p node = true → q node = true) : a.Holds q id := by
  obtain ⟨node, hn, hp⟩ := h
  exact ⟨node, hn, hpq node hp⟩

theorem Arena.Holds.extends (h : a.Holds p id) (hb : a.Extends b) : b.Holds p id := by
  obtain ⟨node, hn, hp⟩ := h
  exact ⟨node, hb.node? hn, hp⟩

theorem Arena.holds_push_nextId (a : Arena) {node : Node} (h : p node = true) : (a.push node).Holds p a.nextId :=
  ⟨node, a.node?_push_nextId node, h⟩

end

/-- The children of the node are there, and each is one that may stand in its place: what a sign stands before and
what stands between operators binds tight enough, a name is assigned to, and a sequence has two statements or more. -/
def Node.Fits (a : Arena) : Node → Prop
  | identifier _ | integer _ | fixed _ => True
  | paren inner => a.Holds (Grammar.Level.admits .sum) inner
  | negation operand => a.Holds (Grammar.Level.admits .factor) operand
  | binary o left right => a.Holds o.level.admits left ∧ a.Holds o.level.tighter.admits right
  | assignment target value => a.Holds isName target ∧ a.Holds (Grammar.Level.admits .sum) value
  | sequence items => 2 ≤ items.length ∧ ∀ item ∈ items, a.Holds isStatement item

section

variable {a b : Arena} {node : Node} {child : NodeId}

theorem Node.Fits.extends (h : node.Fits a) (hb : a.Extends b) : node.Fits b := by
  cases node with
  | identifier _ | integer _ | fixed _ => trivial
  | paren _ | negation _ => exact Arena.Holds.extends h hb
  | binary _ _ _ | assignment _ _ => exact ⟨h.1.extends hb, h.2.extends hb⟩
  | sequence items => exact ⟨h.1, fun item hitem => (h.2 item hitem).extends hb⟩

theorem Node.Fits.of_isLeaf (h : node.isLeaf = true) (a : Arena) : node.Fits a := by
  cases node with
  | identifier _ | integer _ | fixed _ => trivial
  | paren _ | negation _ | binary _ _ _ | assignment _ _ | sequence _ => cases h

/-- The children of a node that fits are there. -/
theorem Node.Fits.exists_child (h : node.Fits a) (hc : child ∈ node.children) : ∃ n, a.node? child = some n := by
  have of_holds : ∀ {p : Node → Bool} {id : NodeId}, a.Holds p id → ∃ n, a.node? id = some n :=
    fun ⟨n, hn, _⟩ => ⟨n, hn⟩
  cases node with
  | identifier _ | integer _ | fixed _ => cases hc
  | paren _ | negation _ => exact List.mem_singleton.mp hc ▸ of_holds h
  | binary _ _ _ | assignment _ _ =>
    rcases List.mem_pair.mp hc with rfl | rfl
    · exact of_holds h.1
    · exact of_holds h.2
  | sequence items => exact of_holds (h.2 child hc)

end

namespace Arena

/-- Every node was made after its children, and fits. -/
structure WellShaped (a : Arena) : Prop where
  descends {id child : NodeId} {node : Node} : a.node? id = some node → child ∈ node.children →
    child.arena = a.id ∧ child.index < id.index
  fits {id : NodeId} {node : Node} : a.node? id = some node → node.Fits a

variable {a : Arena} {id child : NodeId} {node : Node} {nodes : List Node}

theorem wellShaped_empty (id : Nat) : (empty id).WellShaped := by
  have hnone : ∀ x node, (empty id).node? x ≠ some node := fun x node hx =>
    absurd (index_lt_of_node? hx) (Nat.not_lt_zero _)
  exact ⟨fun hx => absurd hx (hnone _ _), fun hx => absurd hx (hnone _ _)⟩

/-- A node that fits keeps the arena well shaped: its children were there before it. -/
theorem WellShaped.push (h : a.WellShaped) (hn : node.Fits a) : (a.push node).WellShaped := by
  have hcases : ∀ {x n}, (a.push node).node? x = some n → x = a.nextId ∧ n = node ∨ a.node? x = some n := by
    intro x n hx
    by_cases hnext : x = a.nextId
    · rw [hnext, node?_push_nextId] at hx
      exact .inl ⟨hnext, (Option.some.inj hx).symm⟩
    · rw [node?_push_of_ne a node hnext] at hx
      exact .inr hx
  constructor
  · intro x c n hx hc
    rcases hcases hx with ⟨rfl, rfl⟩ | hx
    · obtain ⟨child, hchild⟩ := hn.exists_child hc
      show c.arena = a.id ∧ c.index < a.size
      exact ⟨arena_eq_of_node? hchild, index_lt_of_node? hchild⟩
    · exact h.descends hx hc
  · intro x n hx
    rcases hcases hx with ⟨rfl, rfl⟩ | hx
    · exact hn.extends (a.extends_push _)
    · exact (h.fits hx).extends (a.extends_push _)

theorem WellShaped.append_leaves (h : a.WellShaped) (hnodes : ∀ node ∈ nodes, node.isLeaf = true) :
    (a.append nodes).WellShaped := by
  induction nodes generalizing a with
  | nil => rwa [append_nil]
  | cons node nodes ih =>
    obtain ⟨hnode, hnodes⟩ := List.forall_mem_cons.mp hnodes
    have hpush := ih (h.push (.of_isLeaf hnode a)) hnodes
    rwa [push_eq_append, append_append] at hpush

end Arena

end Formula
