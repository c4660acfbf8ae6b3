import Formula.Proofs.Grammar.Making
import Formula.Proofs.Grammar.Relabelling

/-!
# Tokens that are read twice

Tokens that are no program are run through twice, the second time behind the nodes that the first run has made. Both
runs make the same nodes: a child that the first run has made is as many places further on in the second, and a leaf
stays where it is. So the second run refers to nothing that the first has made (`read_of_stuck`).
-/

namespace Formula

/-- The id, so many places further on unless it is before the start. -/
def NodeId.shiftFrom (start n : Nat) (id : NodeId) : NodeId :=
  if start ≤ id.index then id.shift n else id

theorem NodeId.shiftFrom_of_lt {start n : Nat} {id : NodeId} (h : id.index < start) : id.shiftFrom start n = id :=
  if_neg (Nat.not_le.mpr h)

/-- Between the start and what is shifted there is a gap. -/
theorem NodeId.index_shiftFrom_cases (start n : Nat) (id : NodeId) :
    (id.shiftFrom start n).index < start ∨ start + n ≤ (id.shiftFrom start n).index := by
  unfold shiftFrom
  split
  · rename_i h
    exact .inr (Nat.add_le_add_right h n)
  · rename_i h
    exact .inl (Nat.not_le.mp h)

@[simp] theorem Node.isStatement_relabel (f : NodeId → NodeId) (node : Node) :
    (node.relabel f).isStatement = node.isStatement := by
  cases node <;> rfl

theorem Node.ne_sequence_of_isStatement {node : Node} (h : node.isStatement = true) (items : List NodeId) :
    node ≠ .sequence items := by
  rintro rfl
  cases h

namespace Arena

/-- The id is one of the arena, at the place or behind it. -/
def OwnsFrom (a : Arena) (low : Nat) (id : NodeId) : Prop :=
  id.arena = a.id ∧ low ≤ id.index

theorem ownsFrom_nextId {a b : Arena} {low : Nat} (h : a.Extends b) (hlow : low ≤ a.size) :
    a.OwnsFrom low b.nextId := by
  obtain ⟨nodes, rfl⟩ := h
  exact ⟨rfl, Nat.le_trans hlow (by simp [nextId])⟩

theorem OwnsFrom.shiftFrom {a : Arena} {low : Nat} {id : NodeId} (h : a.OwnsFrom low id) (start n : Nat) :
    a.OwnsFrom low (id.shiftFrom start n) := by
  unfold NodeId.shiftFrom
  split
  · exact ⟨h.1, Nat.le_add_right_of_le h.2⟩
  · exact h

/-- The arena hands out ids behind more nodes as far on as there are of these. -/
theorem aligned_shiftFrom (a : Arena) (nodes : List Node) :
    a.Aligned (NodeId.shiftFrom a.size nodes.length) (a.append nodes) := by
  intro k
  simp [NodeId.shiftFrom, NodeId.shift, Nat.add_right_comm]

end Arena

namespace Grammar

variable {f : NodeId → NodeId} {a b : Arena} {low : Nat} {tokens : Array Token} {s s' : Run}

theorem Corresponds.mono {V W : NodeId → NodeId → Prop} {node node' : Node} (h : Corresponds V node node')
    (hVW : ∀ x y, V x y → W x y) : Corresponds W node node' := by
  cases h with
  | paren h => exact .paren (hVW _ _ h)
  | negation h => exact .negation (hVW _ _ h)
  | binary o h h' => exact .binary o (hVW _ _ h) (hVW _ _ h')
  | assignment h h' => exact .assignment (hVW _ _ h) (hVW _ _ h')
  | sequence h => exact .sequence (h.imp hVW)

theorem Corresponds.forall₂_children {V : NodeId → NodeId → Prop} {node node' : Node} (h : Corresponds V node node') :
    List.Forall₂ V node.children node'.children := by
  cases h with
  | paren h | negation h => exact .cons h .nil
  | binary o h h' | assignment h h' => exact .cons h (.cons h' .nil)
  | sequence h => exact h

/-- The runs have made the same nodes behind those of either arena, with children from the place on. -/
def Repeats (f : NodeId → NodeId) (a b : Arena) (low : Nat) (s s' : Run) : Prop :=
  ∃ nodes, s.arena = a.append nodes ∧ s'.arena = b.append (nodes.map (Node.relabel f)) ∧
    ∀ node ∈ nodes, ∀ child ∈ node.children, a.OwnsFrom low child

theorem simulation_repeats (halign : a.Aligned f b) (hlow : low ≤ a.size)
    (hagree : List.Forall₂ (Agree fun x y => a.OwnsFrom low x ∧ f x = y) tokens.toList tokens.toList) :
    Simulation tokens tokens (Repeats f a b low) fun x y => a.OwnsFrom low x ∧ f x = y where
  mark _ _ h := h
  agree := hagree
  create {s s' node node'} h hs := by
    obtain ⟨nodes, ha, hb, hchildren⟩ := hs
    obtain rfl := corresponds_relabel (h.mono fun _ _ hxy => hxy.2)
    obtain ⟨hid, ha', hb'⟩ := push_relabel halign ha hb node
    have howns : ∀ child ∈ node.children, a.OwnsFrom low child :=
      ((List.forall₂_and_left _ _).mp h.forall₂_children).1
    exact ⟨⟨Arena.ownsFrom_nextId ⟨nodes, ha⟩ hlow, hid⟩, nodes ++ [node], ha', hb',
      List.forall_mem_append.mpr ⟨hchildren, List.forall_mem_singleton.mpr howns⟩⟩

/-- A program that fails has made no sequence. -/
theorem exists_nodes_of_failed {n : Nat} (h : program (expression n .sum) tokens 0 s = (.failed, s')) :
    ∃ nodes, s'.arena = s.arena.append nodes ∧ ∀ node ∈ nodes, node.isLeaf = false ∧ node.isStatement = true := by
  have hstatements : MakesOnly tokens (fun node => node.isLeaf = false ∧ node.isStatement = true)
      (statements (expression n .sum)) :=
    makesOnly_statements (fun _ => And.intro) (makesOnly_expression (fun _ => And.intro) n .sum)
  obtain ⟨nodes, hnodes, hall⟩ := hstatements 0 s
  have hprogram : Meets tokens (program (expression n .sum)) 0 s (fun _ _ _ => True)
      (fun s' => s'.arena = s.arena.append nodes) True := by
    apply meets_program
    have harena := hnodes.arena_eq
    unfold Meets
    split <;> rename_i heq <;> rw [heq] at harena
    · exact fun k run₁ ha _ => ⟨fun _ => ha.trans harena, fun _ => ⟨fun _ _ => trivial, fun _ => trivial⟩⟩
    · exact harena
    · trivial
  exact ⟨nodes, (meets_of_failed h).mp hprogram, hall⟩

/-- What tokens that are no program leave behind: the nodes of the first run, which are no leaves and no sequences and
refer to what the tokens may refer to and to each other, and the same nodes once more, with the ids of the first run so
many places further on. -/
theorem read_of_stuck {position : Nat} {expected : List Class} (h : (read tokens a).1 = .stuck position expected)
    (hlow : low ≤ a.size)
    (hleaves : ∀ t ∈ tokens.toList, ∀ id, t.payload = some id → a.OwnsFrom low id ∧ id.index < a.size) :
    ∃ nodes, (read tokens a).2 =
        a.append (nodes ++ nodes.map (Node.relabel (NodeId.shiftFrom a.size nodes.length))) ∧
      ∀ node ∈ nodes, node.isLeaf = false ∧ node.isStatement = true ∧
        ∀ child ∈ node.children, a.OwnsFrom low child := by
  have hne := run_ne_exhausted tokens a (.locate 0)
  rcases hrun : run tokens a (.locate 0) with ⟨root | _ | _, first⟩
  · rw [read, hrun] at h
    cases h
  · obtain ⟨nodes, harena, hall⟩ := exists_nodes_of_failed hrun
    -- a run from the start takes the same course as one from where the first run has ended
    have hagree : List.Forall₂ (Agree fun x y => a.OwnsFrom low x ∧ NodeId.shiftFrom a.size nodes.length x = y)
        tokens.toList tokens.toList := by
      refine List.forall₂_same.mpr fun t ht => ⟨rfl, ?_⟩
      cases hp : t.payload with
      | none => exact .none
      | some id =>
        obtain ⟨howns, hlt⟩ := hleaves t ht id hp
        exact .some ⟨howns, NodeId.shiftFrom_of_lt hlt⟩
    have hstart : Repeats (NodeId.shiftFrom a.size nodes.length) a (a.append nodes) low ⟨a, .locate 0⟩
        ⟨a.append nodes, .explain first.probe.position []⟩ :=
      ⟨[], a.append_nil.symm, (Arena.append_nil _).symm, by simp⟩
    have hsim := simulation_repeats (a.aligned_shiftFrom nodes) hlow hagree
    obtain ⟨nodes', ha, hb, hchildren⟩ := (hsim.follows_run hstart).snd hne
    rw [hrun] at ha
    obtain rfl : nodes = nodes' := a.append_injective (harena.symm.trans ha)
    refine ⟨nodes, ?_, fun node hnode => ⟨(hall node hnode).1, (hall node hnode).2, hchildren node hnode⟩⟩
    rw [← Arena.append_append, read, hrun]
    show (run tokens first.arena (.explain first.probe.position [])).2.arena = _
    rw [harena]
    exact hb
  · exact absurd (congrArg Prod.fst hrun) hne

end Grammar

end Formula
