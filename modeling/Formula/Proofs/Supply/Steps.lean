import Formula.Proofs.Arena.Postorder
import Formula.Proofs.Session.Leaves

/-!
# A supply taken to its end

What requests to the supply of a scan are answered with when they go on after failures. Each request is for the next
entry of the scan, and what the answer is depends on this entry alone (`next_entry`); only the id of a leaf depends on
how many leaves were made before it. So the answers stand in the order of the entries, and the ids that are handed out
follow each other (`drainAll_ofScan`).
-/

namespace Formula

/-- The lexeme is a numeral that the policy does not convert. -/
def Lexeme.IsRefused (policy : Policy) (l : Lexeme) : Prop :=
  l.kind = .integer ∧ (policy.integer l.text).value? = none ∨ l.kind = .fixed ∧ (policy.fixed l.text).value? = none

instance (policy : Policy) (l : Lexeme) : Decidable (l.IsRefused policy) :=
  inferInstanceAs (Decidable (_ ∨ _))

theorem value?_eq_none_iff {α : Type} {c : Conversion α} : c.value? = none ↔ c = .refused := by
  cases c <;> simp [Conversion.value?]

theorem Lexeme.isRefused_iff {policy : Policy} {l : Lexeme} :
    l.IsRefused policy ↔ l.leaf policy = some .refused := by
  have hmap {α : Type} (f : α → Node) (c : Conversion α) : c.map f = .refused ↔ c.value? = none := by
    cases c <;> simp [Conversion.map, Conversion.value?]
  obtain ⟨kind, text, span⟩ := l
  cases kind <;> simp [IsRefused, leaf, hmap]

namespace Supply

/-! ## Requests until the supply is used up -/

/-- What a request is answered with, a token or a failure, if it is not the end of the supply. -/
def Response.answer? (r : Response) : Option (Except Failure Token) :=
  match r.result with
  | .ok none => none
  | .ok (some t) => some (.ok t)
  | .error f => some (.error f)

/-- An answer, with the span of the supply and the arena after it. -/
structure Step where
  answer : Except Failure Token
  span : Span
  arena : Arena

/-- The id that an answer hands out. -/
def Step.payload? (step : Step) : Option NodeId :=
  step.answer.toOption.bind Token.payload

/-- The ids that are handed out, in order. -/
def payloads (steps : List Step) : List NodeId :=
  steps.filterMap Step.payload?

theorem entries_ne_nil_of_answer? {s : Supply} {a : Arena} {answer : Except Failure Token}
    (h : (s.next a).answer? = some answer) : s.entries ≠ [] := by
  intro hnil
  rw [Response.answer?, (result_next_eq_ok_none_iff s a).mpr hnil] at h
  cases h

/-- Requests until the end of the supply, whether they are answered with tokens or failures. -/
def drainAll (s : Supply) (a : Arena) : List Step × Supply × Arena :=
  match _h : (s.next a).answer? with
  | none => ([], (s.next a).supply, (s.next a).arena)
  | some answer =>
    let rest := drainAll (s.next a).supply (s.next a).arena
    (⟨answer, (s.next a).supply.span, (s.next a).arena⟩ :: rest.1, rest.2)
termination_by s.entries.length
decreasing_by
  have hne := entries_ne_nil_of_answer? _h
  rw [entries_next, List.length_tail]
  have := List.length_pos_iff.mpr hne
  omega

variable {s : Supply} {a : Arena} {policy : Policy}

theorem drainAll_of_none (h : (s.next a).answer? = none) :
    s.drainAll a = ([], (s.next a).supply, (s.next a).arena) := by
  rw [drainAll]
  split
  · rfl
  · rename_i heq
    rw [h] at heq
    cases heq

theorem drainAll_of_some {answer : Except Failure Token} (h : (s.next a).answer? = some answer) :
    s.drainAll a =
      (⟨answer, (s.next a).supply.span, (s.next a).arena⟩ :: ((s.next a).supply.drainAll (s.next a).arena).1,
        ((s.next a).supply.drainAll (s.next a).arena).2) := by
  rw [drainAll]
  split
  · rename_i heq
    rw [h] at heq
    cases heq
  · rename_i heq
    rw [h] at heq
    cases heq
    rfl

/-! ## What an entry is answered with -/

/-- What an entry of a scan is answered with, in the arena after the answer. -/
inductive Answers (policy : Policy) (a : Arena) : Except Failure Lexeme → Except Failure Token → Prop
  /-- A failure is passed on. -/
  | failure (f : Failure) : Answers policy a (.error f) (.error f)
  /-- A numeral that a strict policy does not convert is a failure at its place. -/
  | refused {l : Lexeme} : policy = .strict → l.IsRefused policy →
      Answers policy a (.ok l) (.error (.malformedNumber l.span.start l.text))
  /-- A lexeme of a valued kind is a token with the id of its value. -/
  | valued {l : Lexeme} {id : NodeId} {node : Node} : l.IsValue policy node → a.node? id = some node →
      Answers policy a (.ok l) (.ok ⟨l.kind, some id⟩)
  /-- Any other lexeme is a token without an id. -/
  | plain {l : Lexeme} : l.kind.isValued = false → Answers policy a (.ok l) (.ok ⟨l.kind, none⟩)

/-- The lexemes of a scan that are handed out as tokens. -/
def handed (policy : Policy) (entries : List (Except Failure Lexeme)) : List Lexeme :=
  entries.filterMap fun
    | .ok l => if l.IsRefused policy then none else some l
    | .error _ => none

/-- The span of the last lexeme that is handed out, or the span before if none is. -/
def spanAfter (policy : Policy) (before : Span) (entries : List (Except Failure Lexeme)) : Span :=
  ((handed policy entries).getLast?.map Lexeme.span).getD before

theorem spanAfter_cons (policy : Policy) (before : Span) (e : Except Failure Lexeme)
    (entries : List (Except Failure Lexeme)) :
    spanAfter policy before (e :: entries) = spanAfter policy (spanAfter policy before [e]) entries := by
  have h : handed policy (e :: entries) = handed policy [e] ++ handed policy entries := by
    rw [handed, handed, handed, ← List.filterMap_append]
    rfl
  rw [spanAfter, spanAfter, spanAfter, h, List.getLast?_append]
  cases (handed policy entries).getLast? <;> rfl

theorem spanAfter_refused (before : Span) {l : Lexeme} (h : l.IsRefused policy) :
    spanAfter policy before [.ok l] = before := by
  simp [spanAfter, handed, h]

theorem spanAfter_ok (before : Span) {l : Lexeme} (h : ¬ l.IsRefused policy) :
    spanAfter policy before [.ok l] = l.span := by
  simp [spanAfter, handed, h]

/-- A request to a supply that has entries of a scan left is answered for the first of them, and the others are left. -/
theorem next_entry (policy : Policy) (e : Except Failure Lexeme) (es : List (Except Failure Lexeme)) (before : Span)
    (a : Arena) :
    ∃ answer new, let r := next ⟨policy, (ofScan policy (e :: es)).entries, before⟩ a
      r.answer? = some answer ∧
      r.supply = ⟨policy, (ofScan policy es).entries, spanAfter policy before [e]⟩ ∧
      r.arena = a.append new ∧
      (answer.toOption.bind Token.payload).toList = a.nextIds new.length ∧
      Answers policy (a.append new) e answer := by
  cases e with
  | error f => exact ⟨.error f, [], rfl, rfl, (a.append_nil).symm, rfl, .failure f⟩
  | ok l =>
    by_cases hrefused : l.IsRefused policy
    · have hleaf := Lexeme.isRefused_iff.mp hrefused
      refine ⟨.error (.malformedNumber l.span.start l.text), [], ?_, ?_, ?_, rfl,
        .refused (eq_strict_of_leaf_eq_refused hleaf) hrefused⟩
      · simp [next, ofScan, hleaf, Conversion.value?, Response.answer?]
      · simp [next, ofScan, hleaf, Conversion.value?, spanAfter_refused before hrefused]
      · simp [next, ofScan, hleaf, Conversion.value?]
    · cases hleaf : l.leaf policy with
      | none =>
        have hplain : l.kind.isValued = false := by rw [← Lexeme.isSome_leaf policy l, hleaf]; rfl
        refine ⟨.ok ⟨l.kind, none⟩, [], ?_, ?_, ?_, rfl, .plain hplain⟩
        · simp [next, ofScan, hleaf, Response.answer?]
        · simp [next, ofScan, hleaf, spanAfter_ok before hrefused]
        · simp [next, ofScan, hleaf]
      | some conversion =>
        have hne : conversion ≠ .refused := by
          rintro rfl
          exact hrefused (Lexeme.isRefused_iff.mpr hleaf)
        obtain ⟨node, hnode⟩ := Option.ne_none_iff_exists'.mp (mt value?_eq_none_iff.mp hne)
        have hvalue : l.IsValue policy node := .of_leaf? (by rw [Lexeme.leaf?, hleaf]; exact hnode)
        have hid : (a.append [node]).node? a.nextId = some node := by
          rw [← Arena.push_eq_append]
          exact a.node?_push_nextId node
        refine ⟨.ok ⟨l.kind, some a.nextId⟩, [node], ?_, ?_, ?_, ?_, .valued hvalue hid⟩
        · simp [next, ofScan, hleaf, hnode, Response.answer?]
        · simp [next, ofScan, hleaf, hnode, spanAfter_ok before hrefused]
        · simp [next, ofScan, hleaf, hnode, Arena.push_eq_append]
        · exact (a.nextIds_succ node 0).symm

/-! ## All entries -/

/-- Requests to a supply that has entries of a scan left, from any span and arena. -/
theorem drainAll_entries (policy : Policy) (es : List (Except Failure Lexeme)) (before : Span) (a : Arena) :
    ∃ steps nodes,
      drainAll ⟨policy, (ofScan policy es).entries, before⟩ a =
        (steps, ⟨policy, [], spanAfter policy before es⟩, a.append nodes) ∧
      steps.length = es.length ∧
      payloads steps = a.nextIds nodes.length ∧
      ∀ k e, es[k]? = some e → ∃ step, steps[k]? = some step ∧
        step.span = spanAfter policy before (es.take (k + 1)) ∧
        step.arena = a.append (nodes.take (payloads (steps.take (k + 1))).length) ∧
        Answers policy step.arena e step.answer := by
  -- The nodes of the first answer come in front, and the others are made behind them.
  induction es generalizing before a with
  | nil => exact ⟨[], [], by rw [drainAll_of_none rfl, Arena.append_nil]; rfl, rfl, rfl, nofun⟩
  | cons e es ih =>
    obtain ⟨answer, new, hanswer, hsupply, harena, hpayload, hentry⟩ := next_entry policy e es before a
    obtain ⟨steps, nodes, hdrain, hlength, hpayloads, hsteps⟩ := ih (spanAfter policy before [e]) (a.append new)
    let first : Step := ⟨answer, spanAfter policy before [e], a.append new⟩
    have hfirst (l : List Step) : payloads (first :: l) = a.nextIds new.length ++ payloads l := by
      have hid : first.payload? = answer.toOption.bind Token.payload := rfl
      rw [← hpayload, payloads, payloads, List.filterMap_cons, hid]
      cases answer.toOption.bind Token.payload <;> rfl
    have hcount : (a.nextIds new.length).length = new.length := by simp [Arena.nextIds]
    refine ⟨first :: steps, new ++ nodes, ?_, by rw [List.length_cons, hlength, List.length_cons], ?_, ?_⟩
    · rw [drainAll_of_some hanswer, hsupply, harena, hdrain, spanAfter_cons policy before e es, Arena.append_append]
    · rw [hfirst, hpayloads, Arena.nextIds_append]
    · intro k e' hk
      cases k with
      | zero =>
        obtain rfl : e = e' := Option.some.inj hk
        refine ⟨first, rfl, rfl, ?_, hentry⟩
        rw [List.take_succ_cons, List.take_zero, hfirst, List.length_append, hcount]
        simp [payloads, first]
      | succ k =>
        obtain ⟨step, hstep, hspan, harena', hanswer'⟩ := hsteps k e' hk
        refine ⟨step, hstep, ?_, ?_, hanswer'⟩
        · rw [hspan, ← spanAfter_cons]
          rfl
        · have htake : (first :: steps).take (k + 1 + 1) = first :: steps.take (k + 1) := rfl
          rw [harena', htake, hfirst, List.length_append, hcount, List.take_length_add_append, Arena.append_append]

/-- The ids that are handed out next mean nothing before. -/
theorem node?_of_mem_payloads {steps : List Step} {count : Nat} {id : NodeId} (h : payloads steps = a.nextIds count)
    (hid : id ∈ payloads steps) : a.node? id = none := by
  rw [h] at hid
  obtain ⟨k, -, rfl⟩ := List.mem_map.mp hid
  rw [Arena.node?_eq, if_pos rfl]
  exact Array.getElem?_eq_none (Nat.le_add_right _ _)

/-- The supply of a scan gives one answer for each entry, in the order of the entries, and ends where the last token
was. The ids that it hands out are new, follow each other, and are all that is added to the arena. -/
theorem drainAll_ofScan (policy : Policy) (es : List (Except Failure Lexeme)) (a : Arena) :
    ∃ steps nodes,
      (ofScan policy es).drainAll a = (steps, ⟨policy, [], spanAfter policy .origin es⟩, a.append nodes) ∧
      steps.length = es.length ∧
      payloads steps = a.nextIds nodes.length ∧ (∀ id ∈ payloads steps, a.node? id = none) ∧
      ∀ k e, es[k]? = some e → ∃ step, steps[k]? = some step ∧
        step.span = spanAfter policy .origin (es.take (k + 1)) ∧
        step.arena = a.append (nodes.take (payloads (steps.take (k + 1))).length) ∧
        Answers policy step.arena e step.answer := by
  obtain ⟨steps, nodes, hdrain, hlength, hpayloads, hsteps⟩ := drainAll_entries policy es .origin a
  exact ⟨steps, nodes, hdrain, hlength, hpayloads, fun _ => node?_of_mem_payloads hpayloads, hsteps⟩

end Supply

end Formula
