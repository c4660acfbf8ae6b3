import Formula.Proofs.Grammar.Relabelling
import Formula.Proofs.Session.Leaves
import Formula.Proofs.Session.Nodes
import Formula.Proofs.Session.Phases

/-!
# A parse does not depend on earlier ones

The scan, its leaves and the nesting know nothing of the session but its options, and the grammar reads alike beside any
arena. So two sessions with the same options come to the same with a source, up to the ids that their arenas hand out
(`parse_relabel`). After any calls a session parses as a new one does, as many places further on as it has nodes
(`parse_after_calls`).
-/

namespace Formula

open Grammar

theorem Grammar.Reading.result_relabel (f : NodeId → NodeId) (spans : List Span) (reading : Reading) :
    (reading.relabel f).result spans = (reading.result spans).map f := by
  cases reading <;> rfl

theorem Ending.root?_map (f : NodeId → NodeId) (result : Except Failure NodeId) :
    root? (.returned (result.map f)) = (root? (.returned result)).map f := by
  cases result <;> rfl

theorem map_relabel_leaves (f : NodeId → NodeId) (policy : Policy) (ls : List Lexeme) :
    (leaves policy ls).map (Node.relabel f) = leaves policy ls := by
  refine (List.map_congr_left fun node h => ?_).trans (List.map_id _)
  exact node.relabel_of_isLeaf f (isLeaf_of_mem_leaves h)

namespace Session

variable {s s' : Session} {f : NodeId → NodeId}

/-- Sessions with the same options come to the same with a source, and make the same nodes, up to the ids. -/
theorem parse_relabel (hoptions : s'.options = s.options) (halign : s.arena.Aligned f s'.arena) (source : String) :
    (s'.parse source).1 = (s.parse source).1.map f ∧
      ∃ nodes, (s.parse source).2.arena = s.arena.append nodes ∧
        (s'.parse source).2.arena = s'.arena.append (nodes.map (Node.relabel f)) := by
  have hleaves := map_relabel_leaves f s.options.policy
  rcases scan_cases s.options.policy (scan source) with ⟨ls, e, es, failure, h, hls, hf⟩ | ⟨ls, h, hls⟩
  · obtain ⟨hfails, harena⟩ := failsWith_fault h hls hf
    rw [← hoptions] at hls hf
    obtain ⟨hfails', harena'⟩ := failsWith_fault h hls hf
    rw [hfails.result, hfails'.result]
    exact ⟨rfl, _, harena, by rw [harena', hoptions, hleaves]⟩
  · have hls' : Convert s'.options.policy ls := hoptions ▸ hls
    cases hn : Nesting.start.firstTooDeep s.options.maxNesting (ls.map fun l => (l.kind, l.span)) with
    | some span =>
      obtain ⟨hfails, harena⟩ := failsWith_tooDeep h hls hn
      rw [← hoptions] at hn
      obtain ⟨hfails', harena'⟩ := failsWith_tooDeep h hls' hn
      rw [hfails.result, hfails'.result, hoptions]
      exact ⟨rfl, _, harena, by rw [harena', hoptions, hleaves]⟩
    | none =>
      obtain ⟨hresult, harena⟩ := parse_of_scan h hls hn
      rw [← hoptions] at hn
      obtain ⟨hresult', harena'⟩ := parse_of_scan h hls' hn
      -- both read the tokens behind the leaves, which are at aligned places
      have haligned : (s.arena.append (leaves s.options.policy ls)).Aligned f
          (s'.arena.append (leaves s.options.policy ls)) := halign.append rfl
      obtain ⟨hreading, nodes, ha, hb⟩ := read_relabel haligned (forall₂_agree_mint s.options.policy halign ls)
      rw [hoptions] at hresult' harena'
      refine ⟨?_, leaves s.options.policy ls ++ nodes, ?_, ?_⟩
      · rw [hresult', hresult, ← Reading.result_relabel]
        exact congrArg _ hreading
      · rw [harena, ← Arena.append_append]
        exact ha
      · rw [harena', List.map_append, hleaves, ← Arena.append_append]
        exact hb

/-- After any calls a session comes to the same with a source as a new one, as many places further on as it has
nodes, and has made the nodes of the new one behind its own. -/
theorem parse_calls (options : Options) (cs : List Call) (source : String) :
    let s := (new options).calls cs
    let fresh := (new options).parse source
    (s.parse source).1 = fresh.1.map (NodeId.shift s.arena.size) ∧
      (s.parse source).2.arena = s.arena.appendShifted fresh.2.arena ∧ fresh.2.arena.id = s.arena.id := by
  intro s fresh
  have hid : s.arena.id = (new options).arena.id := by
    obtain ⟨nodes, h⟩ := (new options).extends_calls cs
    rw [show s.arena = _ from h, Arena.id_append]
  obtain ⟨hresult, nodes, ha, hb⟩ := parse_relabel (options_calls options cs)
    (Arena.aligned_shift (b := s.arena) hid rfl) source
  have hnodes : fresh.2.arena.nodes.toList = nodes := by
    rw [show fresh.2.arena = _ from ha]
    simp [new, Arena.empty, Arena.append]
  refine ⟨hresult, ?_, ?_⟩
  · rw [hb, Arena.appendShifted, hnodes]
  · rw [show fresh.2.arena = _ from ha, Arena.id_append, hid]

/-- After any calls a session parses a source as a new one does: it fails with the same failure or gives the same root
as many places further on as it has nodes, is left in the same phase, and has made all the nodes of the new session
behind its own, with their children as many places further on, so that every tree of these reads the same. -/
theorem parse_after_calls (options : Options) (cs : List Call) (source : String) :
    let s := (new options).calls cs
    let shift := NodeId.shift s.arena.size
    let fresh := (new options).parse source
    (s.parse source).1 = fresh.1.map shift ∧
      (s.parse source).2.phase = fresh.2.phase ∧
      (s.parse source).2.root = fresh.2.root.map shift ∧
      (s.parse source).2.options = options ∧
      (s.parse source).2.arena = s.arena.append (fresh.2.arena.nodes.toList.map (Node.relabel shift)) ∧
      ∀ id, (s.parse source).2.arena.render (shift id) = fresh.2.arena.render id := by
  intro s shift fresh
  obtain ⟨hresult, harena, hid⟩ := parse_calls options cs source
  refine ⟨hresult, ?_, ?_, ?_, harena, fun id => ?_⟩
  · rw [phase_parse, phase_parse, hresult, Ending.phase, Ending.phase, Ending.root?_map, Option.isSome_map]
  · rw [root_parse, root_parse, hresult, Ending.root?_map]
  · exact (s.options_call (.source source)).trans (options_calls options cs)
  · rw [harena]
    exact s.arena.render_appendShifted (a := fresh.2.arena) hid id

end Session

end Formula
