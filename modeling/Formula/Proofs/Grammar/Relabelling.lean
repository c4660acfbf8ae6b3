import Formula.Proofs.Arena.Relabelling
import Formula.Proofs.Grammar.Depth
import Formula.Proofs.Lexeme.Faults

/-!
# Reading beside another arena

The grammar takes no decision on the arena. Tokens of the same kinds, with leaves that a function takes to each other,
come to the same reading in both arenas and leave the same nodes there, up to that function (`read_relabel`). So it is
with the tokens that one list of lexemes has in two arenas (`forall₂_agree_mint`).
-/

namespace Formula

/-- The reading with another id for its root. -/
def Grammar.Reading.relabel (f : NodeId → NodeId) : Reading → Reading
  | program root => program (f root)
  | stuck position expected => stuck position expected

namespace Grammar

variable {f : NodeId → NodeId} {a b : Arena} {tokens tokens' : Array Token} {node node' : Node}

theorem corresponds_relabel (h : Corresponds (fun x y => f x = y) node node') : node' = node.relabel f := by
  cases h with
  | paren h => rw [← h]; rfl
  | negation h => rw [← h]; rfl
  | binary o h h' => rw [← h, ← h']; rfl
  | assignment h h' => rw [← h, ← h']; rfl
  | sequence h =>
    rename_i xs ys
    have hys : xs.map f = ys := by
      rw [← List.forall₂_eq_eq_eq, List.forall₂_map_left_iff]
      exact h
    rw [← hys]; rfl

/-- The runs expect the same, and have made the same nodes behind those of either arena. -/
structure Relabels (f : NodeId → NodeId) (a b : Arena) (s s' : Run) : Prop where
  probe : s.probe = s'.probe
  arena : ∃ nodes, s.arena = a.append nodes ∧ s'.arena = b.append (nodes.map (Node.relabel f))

/-- What is made next has ids that the function takes to each other. -/
theorem push_relabel (halign : a.Aligned f b) {s s' : Run} {nodes : List Node} (ha : s.arena = a.append nodes)
    (hb : s'.arena = b.append (nodes.map (Node.relabel f))) (node : Node) :
    f s.arena.nextId = s'.arena.nextId ∧ (s.push node).arena = a.append (nodes ++ [node]) ∧
      (s'.push (node.relabel f)).arena = b.append ((nodes ++ [node]).map (Node.relabel f)) := by
  have halign' : s.arena.Aligned f s'.arena := ha ▸ hb ▸ halign.append (List.length_map _).symm
  refine ⟨halign'.nextId, ?_, ?_⟩
  · show s.arena.push node = _
    rw [ha, Arena.push_eq_append, Arena.append_append]
  · show s'.arena.push _ = _
    rw [hb, Arena.push_eq_append, Arena.append_append, List.map_append, List.map_singleton]

theorem simulation_relabel (halign : a.Aligned f b)
    (hagree : List.Forall₂ (Agree fun x y => f x = y) tokens.toList tokens'.toList) :
    Simulation tokens tokens' (Relabels f a b) fun x y => f x = y where
  mark c i h := ⟨congrArg (Probe.mark c i) h.probe, h.arena⟩
  agree := hagree
  create {s s' node node'} h hs := by
    obtain ⟨nodes, ha, hb⟩ := hs.arena
    obtain rfl := corresponds_relabel h
    obtain ⟨hid, ha', hb'⟩ := push_relabel halign ha hb node
    exact ⟨hid, hs.probe, nodes ++ [node], ha', hb'⟩

/-- The reading is the same up to the ids, and so are the nodes it leaves. -/
theorem read_relabel (halign : a.Aligned f b)
    (hagree : List.Forall₂ (Agree fun x y => f x = y) tokens.toList tokens'.toList) :
    (read tokens' b).1 = (read tokens a).1.relabel f ∧
      ∃ nodes, (read tokens a).2 = a.append nodes ∧ (read tokens' b).2 = b.append (nodes.map (Node.relabel f)) := by
  have hstart : Relabels f a b ⟨a, .locate 0⟩ ⟨b, .locate 0⟩ := ⟨rfl, [], a.append_nil.symm, b.append_nil.symm⟩
  have hsim := simulation_relabel halign hagree
  have hfirst := hsim.follows_run hstart
  have hne := run_ne_exhausted tokens a (.locate 0)
  unfold read
  cases he : run tokens a (.locate 0) with
  | mk o s =>
    cases he' : run tokens' b (.locate 0) with
    | mk o' s' =>
      rw [he, he'] at hfirst
      rw [he] at hne
      cases hfirst with
      | matched j hv hs => exact ⟨congrArg _ hv.symm, hs.arena⟩
      | exhausted => exact absurd rfl hne
      | failed hs =>
        -- the second run starts with what the first one left, on either side
        have hagain : Relabels f a b ⟨s.arena, .explain s.probe.position []⟩
            ⟨s'.arena, .explain s'.probe.position []⟩ := ⟨by rw [hs.probe], hs.arena⟩
        have hs' := (hsim.follows_run hagain).snd (run_ne_exhausted _ _ _)
        refine ⟨?_, hs'.arena⟩
        dsimp only [Reading.relabel]
        rw [← hs'.probe, hs.probe]

end Grammar

/-! ## Tokens of the same lexemes -/

variable {f : NodeId → NodeId} {a b : Arena}

open Grammar

theorem forall₂_agree_mint (policy : Policy) (h : a.Aligned f b) (ls : List Lexeme) :
    List.Forall₂ (Agree fun x y => f x = y) ((mint policy a ls).map Prod.fst) ((mint policy b ls).map Prod.fst) := by
  induction ls generalizing a b with
  | nil => exact .nil
  | cons l ls ih =>
    rw [mint, mint]
    split
    · exact .cons ⟨rfl, .none⟩ (ih h)
    · exact .cons ⟨rfl, .some h.nextId⟩ (ih (h.push _ _))

end Formula
