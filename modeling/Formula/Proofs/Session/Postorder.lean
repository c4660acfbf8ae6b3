import Formula.Proofs.Grammar.Postorder
import Formula.Proofs.Session.Leaves

/-!
# A parse leaves nothing over

A parse that gives a root has made the leaves of its source, and behind them the composite nodes of the tree below the
root, in post-order. There is nothing else among the new nodes (`postorder_parse`): whatever alternatives the grammar
has tried and given up on the way, none of them has made a node.
-/

namespace Formula.Session

open Grammar

variable {s : Session} {source : String} {root : NodeId}

/-- What a parse adds to the arena are the leaves for the lexemes of valued kinds, in the order of the source, and then
the composite nodes below the root that it gives, children before their parent and left before right. The root comes
last. Every new node but the root is a child of one new node, and that once; the root is a child of none, and neither
is any node from before. -/
theorem postorder_parse (h : (s.parse source).1 = .ok root) :
    ∃ (ls : List Lexeme) (leaves composites : List Node), scan source = ls.map .ok ∧
      let arena := (s.parse source).2.arena
      let nodes := leaves ++ composites
      let ids := s.arena.nextIds nodes.length
      arena = s.arena.append nodes ∧
      List.Forall₂ (Lexeme.IsValue s.options.policy) (ls.filter fun l => l.kind.isValued) leaves ∧
      arena.leaves root = s.arena.nextIds leaves.length ∧
      arena.composites root = (s.arena.append leaves).nextIds composites.length ∧
      ids.getLast? = some root ∧
      (∀ id, (nodes.flatMap Node.children).count id = if id ∈ ids ∧ id ≠ root then 1 else 0) ∧
      ∀ node ∈ nodes, ∀ c ∈ node.children, c.arena = s.arena.id ∧ s.arena.size ≤ c.index := by
  obtain ⟨ls, ss, hscan, hls, hss, rfl, harena⟩ := exists_derives_of_parse h
  obtain ⟨hids, hthere⟩ := leaves_of_derives_mint hls hss
  obtain ⟨nodes, hnodes, hpost⟩ := plants_buildProgram ss hthere
  have hleaves := leaves_buildProgram hthere
  rw [hids] at hpost hleaves
  -- the ids of the leaves and those of the composite nodes follow each other
  have hall := s.arena.nextIds_append (leaves s.options.policy ls) nodes
  have hchildren : (leaves s.options.policy ls ++ nodes).flatMap Node.children = nodes.flatMap Node.children := by
    have hnone : (leaves s.options.policy ls).flatMap Node.children = [] :=
      List.flatMap_eq_nil_iff.mpr fun node hnode => Node.children_of_isLeaf (isLeaf_of_mem_leaves hnode)
    rw [List.flatMap_append, hnone, List.nil_append]
  have hlast := hpost.getLast?_eq
  have hcount := hpost.count_children (hall ▸ s.arena.nodup_nextIds _)
  have hcomposites := hpost.composites_eq
  rw [List.flatMap_singleton, ← hnodes] at hcomposites
  rw [← hall] at hlast hcount
  refine ⟨ls, leaves s.options.policy ls, nodes, hscan, ?_, forall₂_isValue_leaves hls, ?_, ?_, hlast, ?_, ?_⟩
  · rw [harena, hnodes, Arena.append_append]
  · rw [harena, hleaves]
  · rw [harena, hcomposites]
  · rwa [hchildren]
  · intro node hnode c hc
    have hmem : c ∈ s.arena.nextIds (leaves s.options.policy ls ++ nodes).length := by
      by_contra hnot
      have hzero := hcount c
      rw [if_neg fun hc => hnot hc.1, ← hchildren] at hzero
      exact List.count_eq_zero.mp hzero (List.mem_flatMap.mpr ⟨node, hnode, hc⟩)
    obtain ⟨k, -, rfl⟩ := List.mem_map.mp hmem
    exact ⟨rfl, Nat.le_add_right _ _⟩

/-- A second parse, behind the node that the first one made: the difference, the parentheses, the assignment, and the
sequence. -/
theorem postorder_parse_second :
    (((new {}).parse "x").2.parse "a = (b - 1.5); 2").1 = .ok ⟨0, 8⟩ ∧
      (((new {}).parse "x").2.parse "a = (b - 1.5); 2").2.arena.composites ⟨0, 8⟩ =
        [⟨0, 5⟩, ⟨0, 6⟩, ⟨0, 7⟩, ⟨0, 8⟩] := by
  have h : (((new {}).parse "x").2.parse "a = (b - 1.5); 2").1 = .ok ⟨0, 8⟩ := by decide +kernel
  have hvalued : (scan "a = (b - 1.5); 2").countP (fun e => e.toOption.any fun l => l.kind.isValued) = 4 := by
    decide +kernel
  have hsize : (((new {}).parse "x").2.parse "a = (b - 1.5); 2").2.arena.size = 9 := by decide +kernel
  have hbefore : ((new {}).parse "x").2.arena.id = 0 ∧ ((new {}).parse "x").2.arena.size = 1 := by decide +kernel
  obtain ⟨ls, leaves, composites, hscan, harena, hvalues, -, hcomposites, -, -, -⟩ := postorder_parse h
  have hlength : leaves.length = 4 := by
    rw [hscan, List.countP_map, List.countP_eq_length_filter] at hvalued
    exact hvalues.length_eq.symm.trans hvalued
  have hlength' : composites.length = 4 := by
    rw [harena, Arena.size_append, List.length_append, hbefore.2] at hsize
    omega
  refine ⟨h, ?_⟩
  rw [hcomposites, hlength', Arena.nextIds, Arena.id_append, Arena.size_append, hbefore.1, hbefore.2, hlength]
  rfl

end Formula.Session
