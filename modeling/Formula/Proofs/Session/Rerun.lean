import Formula.Proofs.Grammar.Rerun
import Formula.Proofs.Session.Leaves

/-!
# What a syntax error leaves behind

A parse that ends at an unexpected token has made the leaves of its source, and behind them the composite nodes of two
runs of the grammar, which are the same up to the ids of the nodes that each run has made itself (`rerun_parse`).
-/

namespace Formula

open Grammar

/-- The tokens of lexemes carry no ids but those of their leaves. -/
theorem mem_nextIds_of_mint {policy : Policy} {a : Arena} {ls : List Lexeme} {t : Token} {id : NodeId}
    (ht : t ∈ (mint policy a ls).map Prod.fst) (hp : t.payload = some id) :
    id ∈ a.nextIds (leaves policy ls).length := by
  induction ls generalizing a with
  | nil => cases ht
  | cons l ls ih =>
    rw [mint] at ht
    rw [leaves, List.filterMap_cons, ← leaves]
    cases hl : l.leaf? policy with
    | none =>
      rw [hl] at ht
      rcases List.mem_cons.mp ht with rfl | ht
      · cases hp
      · exact ih ht
    | some node =>
      rw [hl] at ht
      rw [List.length_cons, a.nextIds_succ node]
      rcases List.mem_cons.mp ht with rfl | ht
      · exact List.mem_cons.mpr (.inl (Option.some.inj hp).symm)
      · exact List.mem_cons_of_mem _ (ih ht)

namespace Session

variable {s : Session} {source : String} {offset : Nat} {expected : String}

/-- A parse that ends at an unexpected token has been stuck in the tokens of a scan without a fault. -/
theorem exists_stuck_of_parse (h : (s.parse source).1 = .error (.unexpected offset expected)) :
    ∃ ls, scan source = ls.map .ok ∧ Convert s.options.policy ls ∧
      let reading := read ((mint s.options.policy s.arena ls).map Prod.fst).toArray
        (s.arena.append (leaves s.options.policy ls))
      (s.parse source).2.arena = reading.2 ∧ ∃ position classes, reading.1 = .stuck position classes := by
  obtain ⟨ls, hscan, hls, hn⟩ := exists_scan_of_parse fun f hf =>
    ⟨offset, expected, Except.error.inj (hf.symm.trans h)⟩
  obtain ⟨hresult, harena⟩ := parse_of_scan hscan hls hn
  refine ⟨ls, hscan, hls, harena, ?_⟩
  rw [hresult] at h
  cases hreading : (read ((mint s.options.policy s.arena ls).map Prod.fst).toArray
      (s.arena.append (leaves s.options.policy ls))).1 with
  | program root =>
    rw [hreading] at h
    cases h
  | stuck position classes => exact ⟨position, classes, rfl⟩

/-- A parse that ends at an unexpected token has made the leaves for the lexemes of valued kinds, in the order of the
source, and behind them the nodes of a first run and those of a second. The second run makes the nodes of the first,
with each child that is not before those nodes as many places further on; it refers to none of them. No run makes a leaf
or a sequence, and no new node refers to one from before. -/
theorem rerun_parse (h : (s.parse source).1 = .error (.unexpected offset expected)) :
    ∃ (ls : List Lexeme) (leaves first : List Node), scan source = ls.map .ok ∧
      let start := s.arena.size + leaves.length
      let second := first.map (Node.relabel (NodeId.shiftFrom start first.length))
      (s.parse source).2.arena = s.arena.append (leaves ++ first ++ second) ∧
      List.Forall₂ (Lexeme.IsValue s.options.policy) (ls.filter fun l => l.kind.isValued) leaves ∧
      (∀ node ∈ first ++ second, node.isLeaf = false ∧ ∀ items, node ≠ .sequence items) ∧
      (∀ node ∈ second, ∀ child ∈ node.children, child.index < start ∨ start + first.length ≤ child.index) ∧
      ∀ node ∈ leaves ++ first ++ second, ∀ child ∈ node.children,
        child.arena = s.arena.id ∧ s.arena.size ≤ child.index := by
  obtain ⟨ls, hscan, hls, harena, position, classes, hstuck⟩ := exists_stuck_of_parse h
  have hids : ∀ t ∈ ((mint s.options.policy s.arena ls).map Prod.fst).toArray.toList, ∀ id, t.payload = some id →
      (s.arena.append (leaves s.options.policy ls)).OwnsFrom s.arena.size id ∧
        id.index < (s.arena.append (leaves s.options.policy ls)).size := by
    intro t ht id hp
    obtain ⟨k, hk, rfl⟩ := List.mem_map.mp (mem_nextIds_of_mint ht hp)
    rw [Arena.size_append]
    exact ⟨⟨rfl, Nat.le_add_right _ _⟩, Nat.add_lt_add_left (List.mem_range.mp hk) _⟩
  obtain ⟨first, hread, hfirst⟩ := read_of_stuck hstuck (by simp) hids
  rw [Arena.append_append, Arena.size_append, ← List.append_assoc] at hread
  refine ⟨ls, leaves s.options.policy ls, first, hscan, harena.trans hread, forall₂_isValue_leaves hls,
    List.forall_mem_append.mpr ⟨fun node hnode => ?first, List.forall_mem_map.mpr fun node hnode => ?second⟩,
    List.forall_mem_map.mpr fun node hnode => ?apart, List.forall_mem_append.mpr ⟨List.forall_mem_append.mpr
      ⟨fun node hnode => ?leaves, fun node hnode => ?own⟩, List.forall_mem_map.mpr fun node hnode => ?shifted⟩⟩
  case first =>
    obtain ⟨hleaf, hstatement, -⟩ := hfirst node hnode
    exact ⟨hleaf, Node.ne_sequence_of_isStatement hstatement⟩
  case second =>
    obtain ⟨hleaf, hstatement, -⟩ := hfirst node hnode
    exact ⟨(node.isLeaf_relabel _).trans hleaf,
      Node.ne_sequence_of_isStatement ((node.isStatement_relabel _).trans hstatement)⟩
  case apart =>
    rw [Node.children_relabel]
    exact List.forall_mem_map.mpr fun child _ => child.index_shiftFrom_cases _ _
  case leaves =>
    rw [Node.children_of_isLeaf (isLeaf_of_mem_leaves hnode)]
    nofun
  case own => exact (hfirst node hnode).2.2
  case shifted =>
    rw [Node.children_relabel]
    exact List.forall_mem_map.mpr fun child hc => ((hfirst node hnode).2.2 child hc).shiftFrom _ _

/-- Behind `w`, the product and the sum of `x + y * z` are made twice, since no program ends with the parenthesis. -/
theorem rerun_parse_stray :
    (((new {}).parse "w").2.parse "x + y * z )").1 =
        .error (.unexpected 10 "one of '*', '+', '-', '/', ';'") ∧
      ∃ leaves : List Node, leaves.length = 3 ∧
        (((new {}).parse "w").2.parse "x + y * z )").2.arena = ((new {}).parse "w").2.arena.append (leaves ++
          [.binary .mul ⟨0, 2⟩ ⟨0, 3⟩, .binary .add ⟨0, 1⟩ ⟨0, 4⟩] ++
          [.binary .mul ⟨0, 2⟩ ⟨0, 3⟩, .binary .add ⟨0, 1⟩ ⟨0, 6⟩]) := by
  have h : (((new {}).parse "w").2.parse "x + y * z )").1 =
      .error (.unexpected 10 "one of '*', '+', '-', '/', ';'") := by decide +kernel
  have hfirst : ((((new {}).parse "w").2.parse "x + y * z )").2.arena.nodes.toList.drop 4).take 2 =
      [.binary .mul ⟨0, 2⟩ ⟨0, 3⟩, .binary .add ⟨0, 1⟩ ⟨0, 4⟩] := by decide +kernel
  have hsize : (((new {}).parse "w").2.parse "x + y * z )").2.arena.size = 8 := by decide +kernel
  have hbefore : ((new {}).parse "w").2.arena.size = 1 := by decide +kernel
  have hvalued : ((scan "x + y * z )").filterMap Except.toOption).countP (fun l => l.kind.isValued) = 3 := by
    decide +kernel
  obtain ⟨ls, leaves, first, hscan, harena, hleaves, -⟩ := rerun_parse h
  have hls : (scan "x + y * z )").filterMap Except.toOption = ls := by
    rw [hscan, List.filterMap_map]
    exact List.filterMap_some
  have hlength : leaves.length = 3 := by
    rw [← hleaves.length_eq, ← List.countP_eq_length_filter, ← hls, hvalued]
  have hlength' : first.length = 2 := by
    rw [harena, Arena.size_append, hbefore] at hsize
    simp at hsize
    omega
  rw [hbefore, hlength, hlength'] at harena
  obtain rfl : first = [.binary .mul ⟨0, 2⟩ ⟨0, 3⟩, .binary .add ⟨0, 1⟩ ⟨0, 4⟩] := by
    have hlist := congrArg (fun a => a.nodes.toList) harena
    simp only [Arena.append, Array.toList_append, List.append_assoc] at hlist
    have hbehind : (((new {}).parse "w").2.arena.nodes.toList ++ leaves).length = 4 := by
      rw [List.length_append, hlength, Array.length_toList]
      exact congrArg (· + 3) hbefore
    rwa [hlist, ← List.append_assoc, List.drop_left' hbehind, List.take_left' hlength'] at hfirst
  exact ⟨h, leaves, hlength, harena⟩

end Session

end Formula
