import Formula.Proofs.Arena.Extension
import Formula.Proofs.Arena.Founded
import Mathlib.Data.List.Forall2
import Mathlib.Data.List.Nodup

/-!
# Walks in arenas with more nodes

Nothing that is made later changes what an old id means, one that the arena has handed out or one that is of another
arena (`Extends.node?_of_isOld`). Walks from it go the same way as before if all they come upon is old, so a founded id
keeps its leaves and its rendering (`Founded.sameWalks`). The nodes that are made
later have the ids `a.nextIds` (`forall₂_nextIds`).
-/

namespace Formula.Arena

/-- The id is not one that the arena may still hand out: it has a node there already, or it is of another arena. -/
def IsOld (a : Arena) (id : NodeId) : Prop :=
  id.arena = a.id → id.index < a.size

instance (a : Arena) (id : NodeId) : Decidable (a.IsOld id) :=
  inferInstanceAs (Decidable (_ → _))

variable {a b : Arena} {id child : NodeId} {node : Node}

theorem index_lt_of_node? (h : a.node? id = some node) : id.index < a.size := by
  rw [node?_eq] at h
  split at h
  · exact (Array.getElem?_eq_some_iff.mp h).1
  · cases h

/-- Only ids of the arena mean a node in it. -/
theorem arena_eq_of_node? (h : a.node? id = some node) : id.arena = a.id := by
  rw [node?_eq] at h
  split at h
  · assumption
  · cases h

/-- A child is old if it was made before its parent, and that is old. -/
theorem isOld_child (hn : a.node? id = some node) (hc : child.index < id.index) : a.IsOld child :=
  fun _ => Nat.lt_trans hc (index_lt_of_node? hn)

theorem IsLeaf.founded (h : a.IsLeaf id) : a.Founded id := by
  obtain ⟨node, hn, hleaf⟩ := h
  exact .node hn (by simp [Node.children_of_isLeaf hleaf])

/-! ## More nodes change nothing about old ids -/

theorem node?_append_of_isOld (h : a.IsOld id) (nodes : List Node) : (a.append nodes).node? id = a.node? id := by
  rw [node?_eq, node?_eq, id_append]
  split
  · rename_i hid
    exact Array.getElem?_append_left (h hid)
  · rfl

/-- A node that is made later has the id after those before it. -/
theorem node?_append_size_add (a : Arena) (nodes : List Node) (k : Nat) :
    (a.append nodes).node? ⟨a.id, a.size + k⟩ = nodes[k]? := by
  rw [node?_eq, id_append, if_pos rfl, append, size, Array.getElem?_append_right (Nat.le_add_right _ _)]
  simp

theorem IsOld.of_extends (h : a.IsOld id) (hb : a.Extends b) : b.IsOld id := by
  obtain ⟨nodes, rfl⟩ := hb
  exact fun harena => Nat.lt_of_lt_of_le (h harena) (size_append a nodes ▸ Nat.le_add_right _ _)

theorem isOld_push_nextId (a : Arena) (node : Node) : (a.push node).IsOld a.nextId :=
  fun _ => size_push a node ▸ Nat.lt_succ_self _

theorem Extends.node?_of_isOld (h : a.Extends b) (hid : a.IsOld id) : b.node? id = a.node? id := by
  obtain ⟨nodes, rfl⟩ := h
  exact node?_append_of_isOld hid nodes

theorem Founded.of_extends (h : a.Founded id) (hb : a.Extends b) : b.Founded id := by
  induction h with
  | other hid =>
    obtain ⟨nodes, rfl⟩ := hb
    exact .other hid
  | node hn _ ih => exact .node (hb.node? hn) ih

theorem Founded.leaves_of_extends (h : a.Founded id) (hb : a.Extends b) : b.leaves id = a.leaves id := by
  induction h with
  | @other id hid =>
    have hnone : a.node? id = none := node?_eq_none_of_ne hid
    rw [leaves_of_none hnone, leaves_of_none ((hb.node?_of_isOld fun harena => absurd harena hid).trans hnone)]
  | node hn hc ih =>
    rw [leaves_of_some hn hc, leaves_of_some (hb.node? hn) fun child hchild => (hc child hchild).of_extends hb,
      List.flatMap_congr ih]

theorem Founded.render_of_extends (h : a.Founded id) (hb : a.Extends b) : b.render id = a.render id := by
  induction h with
  | @other id hid =>
    have hnone : a.node? id = none := node?_eq_none_of_ne hid
    rw [render_of_none hnone, render_of_none ((hb.node?_of_isOld fun harena => absurd harena hid).trans hnone)]
  | @node id node hn hc ih =>
    have hchildren : node.children.map (" " ++ b.render ·) = node.children.map (" " ++ a.render ·) :=
      List.map_congr_left fun child hchild => congrArg (" " ++ ·) (ih child hchild)
    rw [render_of_some hn hc, render_of_some (hb.node? hn) fun child hchild => (hc child hchild).of_extends hb,
      hchildren]

/-- Both walks from the id end, and in either arena with the same leaves and the same rendering. -/
def SameWalks (a b : Arena) (id : NodeId) : Prop :=
  ∃ leaves text, (a.leaves? id = some leaves ∧ b.leaves? id = some leaves) ∧
    a.render? id = some text ∧ b.render? id = some text

theorem Founded.sameWalks (h : a.Founded id) (hb : a.Extends b) : a.SameWalks b id := by
  have hlater := h.of_extends hb
  refine ⟨_, _, ⟨h.leaves?_eq, ?_⟩, h.render?_eq, ?_⟩
  · rw [hlater.leaves?_eq, h.leaves_of_extends hb]
  · rw [hlater.render?_eq, h.render_of_extends hb]

/-! ## The ids of later nodes -/

/-- The ids that an arena hands out next. -/
def nextIds (a : Arena) (count : Nat) : List NodeId :=
  (List.range count).map fun k => ⟨a.id, a.size + k⟩

theorem nextIds_succ (a : Arena) (node : Node) (count : Nat) :
    a.nextIds (count + 1) = a.nextId :: (a.push node).nextIds count := by
  simp [nextIds, nextId, List.range_succ_eq_map, Function.comp_def, Nat.add_assoc, Nat.add_comm 1]

theorem nodup_nextIds (a : Arena) (count : Nat) : (a.nextIds count).Nodup :=
  List.Nodup.map (fun k k' h => by simpa using h) List.nodup_range

theorem isLeaf_of_mem_nextIds {nodes : List Node} (h : ∀ node ∈ nodes, node.isLeaf = true) :
    ∀ id ∈ a.nextIds nodes.length, (a.append nodes).IsLeaf id := by
  intro id hid
  obtain ⟨k, hk, rfl⟩ := List.mem_map.mp hid
  have hlt : k < nodes.length := List.mem_range.mp hk
  refine ⟨nodes[k], ?_, h _ (List.getElem_mem hlt)⟩
  rw [node?_append_size_add, List.getElem?_eq_getElem hlt]

/-- Nodes that are made next are what their ids mean from then on. -/
theorem forall₂_nextIds {α : Type} {r : α → Node → Prop} {xs : List α} {nodes : List Node}
    (hb : (a.append nodes).Extends b) (h : List.Forall₂ r xs nodes) :
    List.Forall₂ (fun x id => ∃ node, b.node? id = some node ∧ r x node) xs (a.nextIds nodes.length) := by
  obtain ⟨hlength, hr⟩ := List.forall₂_iff_get.mp h
  refine List.forall₂_iff_get.mpr ⟨by simp [nextIds, hlength], fun k hk hk' => ?_⟩
  have hlt : k < nodes.length := hlength ▸ hk
  refine ⟨nodes[k], hb.node? ?_, hr k hk hlt⟩
  simp [nextIds, node?_append_size_add, hlt]

end Formula.Arena
