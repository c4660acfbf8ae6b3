import Formula.Proofs.Grammar.Growth
import Formula.Proofs.Grammar.Payment
import Formula.Proofs.Session.Outcome

/-!
# How many nodes a parse makes

A parse that succeeds makes at most one node for every token, and one that fails before the grammar is run makes the
leaves only. A syntax error may cost more: what stands in a parenthesis behind an operator of a product, in a sum, is
read twice if it cannot be read to its end, and parentheses in each other multiply (`size_parse_le`). A source of a few
tokens already costs more than two nodes for each that is no value (`lt_size_parse_unclosed`).
-/

namespace Formula.Session

open Grammar

variable {s : Session} {source : String} {ls : List Lexeme}

/-- The kinds of the lexemes before the first fault of a source. -/
def kindsOf (s : Session) (source : String) : List Kind :=
  (accepted s.options.policy (scan source)).map Lexeme.kind

/-- How many of them are values. -/
def valued (s : Session) (source : String) : Nat :=
  (s.kindsOf source).countP Kind.isValued

/-- How many of them are not. -/
def unvalued (s : Session) (source : String) : Nat :=
  (s.kindsOf source).countP fun k => !k.isValued

theorem pays_le_unvalued (ks : List Kind) : ks.countP Kind.pays ≤ ks.countP fun k => !k.isValued :=
  List.countP_mono_left fun k _ hk => by cases k <;> first | rfl | cases hk

theorem length_leaves_eq_valued (hls : Convert s.options.policy ls)
    (h : accepted s.options.policy (scan source) = ls) :
    (leaves s.options.policy ls).length = s.valued source := by
  rw [valued, kindsOf, h, List.countP_map, length_leaves hls]
  rfl

theorem map_kind_map_mint (policy : Policy) (a : Arena) (ls : List Lexeme) :
    ((mint policy a ls).map Prod.fst).map Token.kind = ls.map Lexeme.kind := by
  have hkinds := congrArg (List.map Prod.fst) (map_kind_mint policy a ls)
  rw [List.map_map, List.map_map] at hkinds
  rw [List.map_map]
  exact hkinds

/-- The parse ends before the grammar is run, and makes the leaves. -/
def EndsEarly (s : Session) (source : String) : Prop :=
  (s.parse source).2.arena.size = s.arena.size + s.valued source ∧
    ∃ f, (s.parse source).1 = .error f ∧ ∀ offset expected, f ≠ .unexpected offset expected

/-- The grammar is run twice over tokens of the kinds that the source has, first behind the values and then behind what
the first run leaves. Neither run makes more nodes than the tokens can pay for. -/
structure RunsTwice (s : Session) (source : String) (tokens : Array Token) (first second : Run) : Prop where
  kinds_eq : tokens.toList.map Token.kind = s.kindsOf source
  first_eq : first = (run tokens
    (s.arena.append (leaves s.options.policy (accepted s.options.policy (scan source)))) (.locate 0)).2
  second_eq : second = (run tokens first.arena (.explain first.probe.position [])).2
  arena_eq : (s.parse source).2.arena = second.arena
  first_le : first.arena.size ≤ s.arena.size + s.valued source + (Budget.start.after (s.kindsOf source)).nodes
  second_le : second.arena.size ≤ first.arena.size + (Budget.start.after (s.kindsOf source)).nodes

/-- The parse ends with the grammar, which stays within its budget, and needs less if it succeeds. -/
structure EndsLate (s : Session) (source : String) : Prop where
  size_le : (s.parse source).2.arena.size ≤
    s.arena.size + s.valued source + 2 * (Budget.start.after (s.kindsOf source)).nodes
  times_le (i : Nat) : (Budget.start.after ((s.kindsOf source).take i)).times ≤ 2 ^ s.options.maxNesting
  size_le_of_ok {root : NodeId} : (s.parse source).1 = .ok root →
    (s.parse source).2.arena.size ≤ s.arena.size + s.valued source + s.unvalued source
  eq_unexpected {f : Failure} : (s.parse source).1 = .error f → ∃ offset expected, f = .unexpected offset expected
  runsTwice {f : Failure} : (s.parse source).1 = .error f →
    ∃ tokens first second, s.RunsTwice source tokens first second

theorem endsEarly_of_fault {e : Except Failure Lexeme} {es : List (Except Failure Lexeme)} {f : Failure}
    (h : scan source = ls.map .ok ++ e :: es) (hls : Convert s.options.policy ls)
    (hf : fault? s.options.policy e = some f) : s.EndsEarly source := by
  obtain ⟨hfails, harena⟩ := failsWith_fault h hls hf
  have haccepted : accepted s.options.policy (scan source) = ls := by
    rw [h, accepted_append hls, accepted_of_fault hf, List.append_nil]
  refine ⟨?_, f, hfails.result, fun offset expected heq => ?_⟩
  · rw [harena, Arena.size_append, length_leaves_eq_valued hls haccepted]
  · rcases fault_cases h hf with ⟨_, _, -, rfl⟩ | ⟨-, _, -, rfl⟩ <;> cases heq

section

variable (h : scan source = ls.map .ok) (hls : Convert s.options.policy ls)
include h hls

theorem accepted_of_convert : accepted s.options.policy (scan source) = ls := by
  rw [h, accepted_map_ok hls]

theorem endsEarly_of_tooDeep {span : Span}
    (hn : Nesting.start.firstTooDeep s.options.maxNesting (ls.map fun l => (l.kind, l.span)) = some span) :
    s.EndsEarly source := by
  obtain ⟨hfails, harena⟩ := failsWith_tooDeep h hls hn
  refine ⟨?_, _, hfails.result, fun offset expected heq => ?_⟩
  · rw [harena, Arena.size_append, length_leaves_eq_valued hls (accepted_of_convert h hls)]
  · cases heq

theorem runsTwice_of_not_derives (hss : ∀ ss, ¬ DerivesProgram ((mint s.options.policy s.arena ls).map Prod.fst) ss)
    (harena : (s.parse source).2.arena = (read ((mint s.options.policy s.arena ls).map Prod.fst).toArray
      (s.arena.append (leaves s.options.policy ls))).2) :
    ∃ first second, s.RunsTwice source ((mint s.options.policy s.arena ls).map Prod.fst).toArray first second := by
  have haccepted := accepted_of_convert h hls
  have hkinds : ((mint s.options.policy s.arena ls).map Prod.fst).map Token.kind = s.kindsOf source := by
    rw [map_kind_map_mint, kindsOf, haccepted]
  have hrun := fun a probe => size_run_le ((mint s.options.policy s.arena ls).map Prod.fst).toArray a probe
  rw [total_eq, hkinds] at hrun
  have hfirst := hrun (s.arena.append (leaves s.options.policy ls)) (.locate 0)
  rw [Arena.size_append, length_leaves_eq_valued hls haccepted] at hfirst
  exact ⟨_, _, hkinds, by rw [haccepted], rfl, by rw [harena, snd_read_of_not_derives hss], hfirst, hrun _ _⟩

theorem endsLate_of_nesting
    (hn : Nesting.start.firstTooDeep s.options.maxNesting (ls.map fun l => (l.kind, l.span)) = none) :
    s.EndsLate source := by
  have haccepted := accepted_of_convert h hls
  have hkinds : s.kindsOf source = ls.map Lexeme.kind := by rw [kindsOf, haccepted]
  have hvalued := length_leaves_eq_valued hls haccepted
  have hleaves : (s.arena.append (leaves s.options.policy ls)).size = s.arena.size + s.valued source := by
    rw [Arena.size_append, hvalued]
  have htokens := map_kind_map_mint s.options.policy s.arena ls
  have htimes : ∀ i, (Budget.start.after ((s.kindsOf source).take i)).times ≤ 2 ^ s.options.maxNesting := fun i => by
    have := Budget.times_after_le hn i
    rw [List.map_map] at this
    rw [hkinds]
    exact this
  have hread := size_read_le ((mint s.options.policy s.arena ls).map Prod.fst).toArray
    (s.arena.append (leaves s.options.policy ls))
  rw [total_eq, hleaves, htokens, ← hkinds] at hread
  by_cases hss : ∃ ss, DerivesProgram ((mint s.options.policy s.arena ls).map Prod.fst) ss
  · obtain ⟨ss, hss⟩ := hss
    obtain ⟨hresult, harena⟩ := parse_of_derives h hls hn hss
    have hsize := hss.size_build_le (s.arena.append (leaves s.options.policy ls))
    have hpayers : payers ((mint s.options.policy s.arena ls).map Prod.fst) ≤ s.unvalued source := by
      rw [unvalued, hkinds, ← htokens, payers, ← Function.comp_def, ← List.countP_map]
      exact pays_le_unvalued _
    rw [read_of_derives (by exact hss), ← harena] at hread
    rw [← harena, hleaves] at hsize
    refine ⟨hread, htimes, fun _ => by omega, fun herror => ?_, fun herror => ?_⟩ <;>
      (rw [hresult] at herror; cases herror)
  · have hno := not_exists.mp hss
    obtain ⟨offset, expected, hfails, harena⟩ := failsWith_unexpected h hls hn hno
    rw [← harena] at hread
    refine ⟨hread, htimes, fun hok => ?_, fun herror => ⟨offset, expected, ?_⟩,
      fun _ => ⟨_, runsTwice_of_not_derives h hls hno harena⟩⟩
    · rw [hfails.result] at hok
      cases hok
    · rw [hfails.result] at herror
      exact (Except.error.inj herror).symm

end

/-- A parse appends no more nodes than the values and twice what the other tokens can pay for: each of the two runs of
the grammar can be paid for once. If no token is read more than once in a run, that is two for each of the others, and
in any case not more than two to the power of the limit times that. A parse that succeeds appends one for each at most,
and one that fails before the grammar is run appends the values only. A syntax error takes both runs, each within what
the tokens can pay for. -/
theorem size_parse_le (s : Session) (source : String) :
    (s.parse source).2.arena.size ≤
      s.arena.size + s.valued source + 2 * (Budget.start.after (s.kindsOf source)).nodes ∧
    ((∀ i, (Budget.start.after ((s.kindsOf source).take i)).times ≤ 1) →
      (s.parse source).2.arena.size ≤ s.arena.size + s.valued source + 2 * s.unvalued source) ∧
    (s.parse source).2.arena.size ≤
      s.arena.size + s.valued source + 2 * (s.unvalued source * 2 ^ s.options.maxNesting) ∧
    ((∃ root, (s.parse source).1 = .ok root) →
      (s.parse source).2.arena.size ≤ s.arena.size + s.valued source + s.unvalued source) ∧
    ((∃ f, (s.parse source).1 = .error f ∧ ∀ offset expected, f ≠ .unexpected offset expected) →
      (s.parse source).2.arena.size = s.arena.size + s.valued source) ∧
    ((∃ offset expected, (s.parse source).1 = .error (.unexpected offset expected)) →
      ∃ tokens first second, s.RunsTwice source tokens first second) := by
  have hends : s.EndsEarly source ∨ s.EndsLate source := by
    rcases scan_cases s.options.policy (scan source) with ⟨ls, e, es, f, h, hls, hf⟩ | ⟨ls, h, hls⟩
    · exact .inl (endsEarly_of_fault h hls hf)
    · cases hn : Nesting.start.firstTooDeep s.options.maxNesting (ls.map fun l => (l.kind, l.span)) with
      | some span => exact .inl (endsEarly_of_tooDeep h hls hn)
      | none => exact .inr (endsLate_of_nesting h hls hn)
  have hpays := pays_le_unvalued (s.kindsOf source)
  rcases hends with ⟨hsize, f, hresult, hne⟩ | hlate
  · refine ⟨by omega, fun _ => by omega, by omega, fun ⟨root, hok⟩ => ?_, fun _ => hsize,
      fun ⟨offset, expected, herror⟩ => ?_⟩
    · rw [hresult] at hok
      cases hok
    · rw [hresult] at herror
      exact absurd (Except.error.inj herror) (hne offset expected)
  · have hnodes : ∀ bound, (∀ i, (Budget.start.after ((s.kindsOf source).take i)).times ≤ bound) →
        (Budget.start.after (s.kindsOf source)).nodes ≤ s.unvalued source * bound := fun bound htimes => by
      have hle := Budget.nodes_after_le htimes
      rw [show Budget.start.nodes = 0 from rfl, Nat.zero_add] at hle
      exact Nat.le_trans hle (Nat.mul_le_mul_right bound hpays)
    have hsize := hlate.size_le
    refine ⟨hsize, fun htimes => ?_, ?_, fun ⟨root, hok⟩ => hlate.size_le_of_ok hok, fun ⟨f, herror, hne⟩ => ?_,
      fun ⟨offset, expected, herror⟩ => hlate.runsTwice herror⟩
    · have := hnodes 1 htimes
      omega
    · have := hnodes _ hlate.times_le
      omega
    · obtain ⟨offset, expected, rfl⟩ := hlate.eq_unexpected herror
      exact absurd rfl (hne offset expected)

/-- Two for each of the others are not enough: here 20 tokens, of which 8 are values, cost 30 nodes beside the
values. -/
theorem lt_size_parse_unclosed :
    (new {}).arena.size + (new {}).valued "a+b*(a+b*(a+b*(a+b*(" + 2 * (new {}).unvalued "a+b*(a+b*(a+b*(a+b*(" <
      ((new {}).parse "a+b*(a+b*(a+b*(a+b*(").2.arena.size := by
  decide +kernel

end Formula.Session
