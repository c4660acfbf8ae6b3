import Formula.Binary64.Layout
import Formula.Text.Quoted
import Formula.Text.Record

/-!
# Nodes

The nodes of a syntax tree. A node refers to its children by their ids, so a tree is a set of nodes in an arena
together with the id of its root. Names and numerals are leaves, all other nodes are composite. `Variant` names the
eight forms; `Node.ofFields` and `Node.fields?` convert between a node and the fields of its form.
-/

namespace Formula

/-- The place of a node: the arena that made it and its index there. -/
structure NodeId where
  arena : Nat
  index : Nat
deriving DecidableEq, Repr

namespace NodeId

def text (id : NodeId) : String :=
  Text.record "Id" [("idx", toString id.index)]

end NodeId

/-- The operators between two operands. -/
inductive Operator
  | add
  | sub
  | mul
  | div
deriving DecidableEq, Repr

namespace Operator

def symbol : Operator → String
  | add => "+"
  | sub => "-"
  | mul => "*"
  | div => "/"

def name : Operator → String
  | add => "Add"
  | sub => "Sub"
  | mul => "Mul"
  | div => "Div"

end Operator

/-- A node of a syntax tree. -/
inductive Node
  | identifier (name : String)
  | integer (value : Int64)
  | fixed (value : Binary64)
  | paren (inner : NodeId)
  | negation (operand : NodeId)
  | binary (operator : Operator) (left right : NodeId)
  | assignment (target value : NodeId)
  | sequence (items : List NodeId)
deriving DecidableEq

/-- The forms a node can have. -/
inductive Variant
  | identifier
  | integer
  | fixed
  | paren
  | negation
  | binary
  | assignment
  | sequence
deriving DecidableEq, Repr

namespace Variant

def name : Variant → String
  | identifier => "Identifier"
  | integer => "IntegerLiteral"
  | fixed => "FixedPointLiteral"
  | paren => "Paren"
  | negation => "UnaryOp"
  | binary => "BinaryOp"
  | assignment => "Assignment"
  | sequence => "Sequence"

/-- What a node of the form holds. -/
def Fields : Variant → Type
  | identifier => String
  | integer => Int64
  | fixed => Binary64
  | paren => NodeId
  | negation => NodeId
  | binary => Operator × NodeId × NodeId
  | assignment => NodeId × NodeId
  | sequence => List NodeId

end Variant

namespace Node

/-! ## Forms -/

def variant : Node → Variant
  | identifier _ => .identifier
  | integer _ => .integer
  | fixed _ => .fixed
  | paren _ => .paren
  | negation _ => .negation
  | binary .. => .binary
  | assignment .. => .assignment
  | sequence _ => .sequence

/-- The node of a form with the given fields. -/
def ofFields : (v : Variant) → v.Fields → Node
  | .identifier, name => identifier name
  | .integer, value => integer value
  | .fixed, value => fixed value
  | .paren, inner => paren inner
  | .negation, operand => negation operand
  | .binary, (operator, left, right) => binary operator left right
  | .assignment, (target, value) => assignment target value
  | .sequence, items => sequence items

/-- The fields of a node, if it has the form. -/
def fields? : (v : Variant) → Node → Option v.Fields
  | .identifier, identifier name => some name
  | .integer, integer value => some value
  | .fixed, fixed value => some value
  | .paren, paren inner => some inner
  | .negation, negation operand => some operand
  | .binary, binary operator left right => some (operator, left, right)
  | .assignment, assignment target value => some (target, value)
  | .sequence, sequence items => some items
  | _, _ => none

theorem fields?_ofFields (v : Variant) (fields : v.Fields) : fields? v (ofFields v fields) = some fields := by
  cases v <;> rfl

@[simp] theorem variant_ofFields (v : Variant) (fields : v.Fields) : (ofFields v fields).variant = v := by
  cases v <;> rfl

theorem fields?_eq_none {v : Variant} {node : Node} (h : v ≠ node.variant) : fields? v node = none := by
  cases v <;> cases node <;> first | rfl | exact absurd rfl h

/-! ## Structure -/

/-- Whether the node is a name or a numeral. -/
def isLeaf : Node → Bool
  | identifier _ | integer _ | fixed _ => true
  | _ => false

/-- The children in the order of the source. -/
def children : Node → List NodeId
  | identifier _ | integer _ | fixed _ => []
  | paren inner => [inner]
  | negation operand => [operand]
  | binary _ left right => [left, right]
  | assignment target value => [target, value]
  | sequence items => items

/-- Equality of nodes, with fixed-point values compared as numbers. -/
def numEq : Node → Node → Bool
  | fixed x, fixed y => x.numEq y
  | n, m => n = m

theorem children_of_isLeaf {node : Node} (h : node.isLeaf) : node.children = [] := by
  cases node <;> simp_all [isLeaf, children]

/-! ## Text -/

/-- What a leaf reads as in a rendered tree, and the head of the form that a composite node reads as. -/
def label : Node → String
  | identifier name => name
  | integer value => toString value.toInt
  | fixed value => value.text
  | paren _ => "paren"
  | negation _ => "neg"
  | binary operator _ _ => operator.symbol
  | assignment .. => "="
  | sequence _ => "seq"

/-- The fields of a node with their names. -/
def fieldTexts : Node → List (String × String)
  | identifier name => [("name", Text.quote name)]
  | integer value => [("value", toString value.toInt)]
  | fixed value => [("value", value.text)]
  | paren inner => [("inner", inner.text)]
  | negation operand => [("op", "Neg"), ("operand", operand.text)]
  | binary operator left right => [("op", operator.name), ("lhs", left.text), ("rhs", right.text)]
  | assignment target value => [("target", target.text), ("value", value.text)]
  | sequence items => [("items", Text.bracketed (items.map NodeId.text))]

/-- The fields of a node as a record of its form. -/
def recordText (node : Node) : String :=
  Text.record node.variant.name node.fieldTexts

/-- The node written out. -/
def text (node : Node) : String :=
  Text.tagged node.variant.name node.recordText

end Node

end Formula
