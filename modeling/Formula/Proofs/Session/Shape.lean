import Formula.Proofs.Grammar.Shape
import Formula.Proofs.Session.Call
import Formula.Proofs.Session.Rendering
import Mathlib.Data.List.Induction

/-!
# The shape of what a session has made

A parse makes leaves, and behind them what the grammar makes of its tokens, perhaps in two runs. Both keep the arena
well shaped, so a session that only reads sources has a well-shaped arena after any of them, with all that parses that
failed have left behind (`wellShaped_calls`).
-/

namespace Formula

open Grammar

/-- The call that reads a source with the grammar: one that is delivered, or a text. -/
def Call.reading : List Delivery ⊕ String → Call
  | .inl pieces => .deliveries pieces
  | .inr text => .source text

variable {policy : Policy} {a : Arena} {ls : List Lexeme}

/-- The tokens of lexemes have their leaves in the arena. -/
theorem ready_mint (hls : Convert policy ls) (ha : a.WellShaped) :
    Ready ((mint policy a ls).map Prod.fst).toArray (a.append (leaves policy ls)) := by
  have hvalue : ∀ {t : Token} {id : NodeId}, t ∈ ((mint policy a ls).map Prod.fst).toArray → leaf? t = some id →
      ∃ (l : Lexeme) (node : Node), t.kind = l.kind ∧ (a.append (leaves policy ls)).node? id = some node ∧
        l.IsValue policy node := by
    intro t id ht hid
    obtain ⟨l, -, hl⟩ := exists_standsFor (forall₂_standsFor_mint hls (Arena.extends_refl _)) (List.mem_toArray.mp ht)
    exact ⟨l, _, hl.kind_eq, hl.valueAt_of_leaf? (Arena.extends_refl _) hid⟩
  refine ⟨ha.append_leaves fun _ => isLeaf_of_mem_leaves, fun ht hid => ?_, fun {t id} ht hk hp => ?_⟩
  · obtain ⟨l, node, -, hn, hl⟩ := hvalue ht hid
    exact ⟨node, hn, hl.isLeaf⟩
  · have hid : leaf? t = some id := by rw [leaf?, hk, hp]; rfl
    obtain ⟨l, node, hkind, hn, hl⟩ := hvalue ht hid
    refine ⟨node, hn, ?_⟩
    cases hl with
    | identifier _ => rfl
    | integer hk' _ | fixed hk' _ => cases hk.symm.trans (hkind.trans hk')

namespace Session

variable {s : Session}

/-- However a parse ends, what it has made is well shaped. -/
theorem wellShaped_parse (h : s.arena.WellShaped) (source : String) : (s.parse source).2.arena.WellShaped := by
  have hleaves : ∀ ls, (s.arena.append (leaves s.options.policy ls)).WellShaped := fun ls =>
    h.append_leaves fun _ => isLeaf_of_mem_leaves
  rcases scan_cases s.options.policy (scan source) with ⟨ls, e, es, f, hscan, hls, hf⟩ | ⟨ls, hscan, hls⟩
  · rw [(failsWith_fault hscan hls hf).2]
    exact hleaves ls
  · cases hn : Nesting.start.firstTooDeep s.options.maxNesting (ls.map fun l => (l.kind, l.span)) with
    | some span =>
      rw [(failsWith_tooDeep hscan hls hn).2]
      exact hleaves ls
    | none =>
      rw [(parse_of_scan hscan hls hn).2]
      exact (grows_read (ready_mint hls h)).ready.shaped

/-- A source that cannot be read leaves the arena as it is. -/
theorem wellShaped_reading (h : s.arena.WellShaped) (source : List Delivery ⊕ String) :
    (s.call (.reading source)).2.arena.WellShaped := by
  cases source with
  | inl deliveries =>
    show (s.parseDeliveries deliveries).2.arena.WellShaped
    unfold parseDeliveries
    split
    · rename_i contents _
      show (s.parseContents contents).2.arena.WellShaped
      unfold parseContents
      split
      · exact wellShaped_parse h _
      · exact h
    · exact h
  | inr source => exact wellShaped_parse h source

/-- After any sources, read from deliveries or given as texts, every node of a session was made after its children and
binds them as the grammar does: those below a root, and those that parses without one have left behind. -/
theorem wellShaped_calls (options : Options) (sources : List (List Delivery ⊕ String)) :
    ((new options).calls (sources.map .reading)).arena.WellShaped := by
  induction sources using List.reverseRecOn with
  | nil => exact Arena.wellShaped_empty 0
  | append_singleton sources source ih =>
    rw [List.map_append, List.map_singleton, calls_concat]
    exact wellShaped_reading ih source

end Session

end Formula
