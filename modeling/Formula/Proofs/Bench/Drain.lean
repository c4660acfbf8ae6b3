import Formula.Bench
import Formula.Proofs.Lexeme.Faults

/-!
# Taking all tokens off a supply

Tokens that are finished are taken as they are (`drain_tokens`). Of a scan, the lexemes are taken up to the first fault
and their leaves are made, but no other node (`drain_lexemes`).
-/

namespace Formula.Bench

variable {b b' : Bench} {taken : Array (Token × Span)} {t : Token} {f : Failure}

theorem drain_some (h : b.next = (.ok (some t), b')) : b.drain taken = b'.drain (taken.push (t, b'.supply.span)) := by
  rw [drain]
  split <;> rename_i heq <;> rw [h] at heq <;> cases heq
  rfl

theorem drain_none (h : b.next = (.ok none, b')) : b.drain taken = (.ok taken.toList, b') := by
  rw [drain]
  split <;> rename_i heq <;> rw [h] at heq <;> cases heq
  rfl

theorem drain_error (h : b.next = (.error f, b')) : b.drain taken = (.error f, b') := by
  rw [drain]
  split <;> rename_i heq <;> rw [h] at heq <;> cases heq
  rfl

/-- Tokens that are already finished are taken as they are. -/
theorem drain_tokens (taken : Array (Token × Span)) (l : List (Token × Span))
    (h : b.supply.entries = l.map fun (t, span) => .token t span) :
    ∃ b', b.drain taken = (.ok (taken.toList ++ l), b') ∧ b'.arena = b.arena := by
  induction l generalizing b taken with
  | nil =>
    have hnext : b.next = (.ok none, b.next.2) := by simp [next, Supply.next, h]
    refine ⟨b.next.2, ?_, by simp [next, Supply.next, h]⟩
    rw [drain_none hnext, List.append_nil]
  | cons e l ih =>
    obtain ⟨t, span⟩ := e
    have hnext : b.next = (.ok (some t), b.next.2) := by simp [next, Supply.next, h]
    have hentries : b.next.2.supply.entries = l.map fun (t, span) => .token t span := by rw [entries_next, h]; rfl
    have hspan : b.next.2.supply.span = span := by simp [next, Supply.next, h]
    obtain ⟨b', hdrain, harena⟩ := ih (taken.push (t, b.next.2.supply.span)) hentries
    refine ⟨b', ?_, ?_⟩
    · rw [drain_some hnext, hdrain, hspan]
      simp
    · rw [harena]
      simp [next, Supply.next, h]

section Lexemes

variable {policy : Policy} {l : Lexeme} {rest : List Supply.Entry}

/-- A lexeme that converts is taken, and its leaf is made if it has one. -/
theorem next_lexeme (hpolicy : b.supply.policy = policy) (hl : l.leaf policy ≠ some .refused)
    (h : b.supply.entries = .lexeme l :: rest) :
    ∃ t b', b.next = (.ok (some t), b') ∧ b'.supply.entries = rest ∧ b'.supply.policy = policy ∧ b'.root = b.root ∧
      b'.arena = b.arena.append (leaves policy [l]) ∧
      ∀ ls, mint policy b.arena (l :: ls) = (t, b'.supply.span) :: mint policy b'.arena ls := by
  cases hleaf : l.leaf policy with
  | none =>
    have hleaf? : l.leaf? policy = none := by rw [Lexeme.leaf?, hleaf]; rfl
    refine ⟨⟨l.kind, none⟩, b.next.2, ?_⟩
    simp [next, Supply.next, h, hpolicy, hleaf, leaves, hleaf?, mint]
  | some conversion =>
    obtain ⟨node, hvalue⟩ : ∃ node, conversion.value? = some node := by
      cases conversion with
      | whole node | leading node => exact ⟨node, rfl⟩
      | refused => exact absurd hleaf hl
    have hleaf? : l.leaf? policy = some node := by rw [Lexeme.leaf?, hleaf]; exact hvalue
    refine ⟨⟨l.kind, some b.arena.nextId⟩, b.next.2, ?_⟩
    simp [next, Supply.next, h, hpolicy, hleaf, hvalue, leaves, hleaf?, mint, Arena.push_eq_append]

/-- A request for an entry at fault fails, and nothing is made for it. -/
theorem next_fault {e : Except Failure Lexeme} {es : List (Except Failure Lexeme)} (hpolicy : b.supply.policy = policy)
    (hf : fault? policy e = some f) (h : b.supply.entries = (Supply.ofScan policy (e :: es)).entries) :
    b.next = (.error f, b.next.2) ∧ b.next.2.arena = b.arena := by
  cases e with
  | error f' =>
    cases Option.some.inj hf
    simp [next, Supply.next, h, Supply.ofScan]
  | ok l =>
    obtain ⟨hrefused, rfl⟩ := fault?_ok_eq_some.mp hf
    simp [next, Supply.next, h, Supply.ofScan, hpolicy, hrefused, Conversion.value?]

/-- Lexemes that convert are taken, and their leaves are made. -/
theorem drain_lexemes (taken : Array (Token × Span)) {ls : List Lexeme} (hpolicy : b.supply.policy = policy)
    (hls : Convert policy ls) (h : b.supply.entries = ls.map .lexeme ++ rest) :
    ∃ b' : Bench, b.drain taken = b'.drain (taken ++ (mint policy b.arena ls).toArray) ∧ b'.supply.entries = rest ∧
      b'.supply.policy = policy ∧ b'.arena = b.arena.append (leaves policy ls) ∧ b'.root = b.root := by
  induction ls generalizing b taken with
  | nil => exact ⟨b, by simp [mint], h, hpolicy, by simp [leaves], rfl⟩
  | cons l ls ih =>
    obtain ⟨t, b₁, hnext, hentries, hpolicy₁, hroot₁, harena₁, hmint⟩ := next_lexeme hpolicy hls.head h
    obtain ⟨b', hdrain, hrest, hpolicy', harena, hroot⟩ :=
      ih (taken.push (t, b₁.supply.span)) hpolicy₁ hls.tail hentries
    refine ⟨b', ?_, hrest, hpolicy', ?_, hroot.trans hroot₁⟩
    · rw [drain_some hnext, hdrain, hmint]
      simp
    · rw [harena, harena₁, Arena.append_append, ← leaves_cons]

/-- A scan without a fault is taken to its end. -/
theorem drain_scan {ls : List Lexeme} (hls : Convert policy ls) (h : b.supply = .ofScan policy (ls.map .ok)) :
    ∃ b' : Bench, b.drain #[] = (.ok (mint policy b.arena ls), b') ∧
      b'.arena = b.arena.append (leaves policy ls) ∧ b'.root = b.root := by
  have hentries : b.supply.entries = ls.map .lexeme ++ [] := by
    rw [h, Supply.ofScan, List.map_map, List.append_nil]
    rfl
  obtain ⟨b₁, hdrain, hrest, -, harena, hroot⟩ := drain_lexemes #[] (by rw [h]; rfl) hls hentries
  have hnext : b₁.next = (.ok none, b₁.next.2) := by simp [next, Supply.next, hrest]
  refine ⟨b₁.next.2, ?_, ?_, ?_⟩
  · rw [hdrain, drain_none hnext]
    simp
  · simpa [next, Supply.next, hrest] using harena
  · simpa [next] using hroot

/-- The first fault of a scan ends it. -/
theorem drain_scan_of_fault {ls : List Lexeme} {e : Except Failure Lexeme} {es : List (Except Failure Lexeme)}
    (hls : Convert policy ls) (hf : fault? policy e = some f) (h : b.supply = .ofScan policy (ls.map .ok ++ e :: es)) :
    ∃ b' : Bench, b.drain #[] = (.error f, b') ∧
      b'.arena = b.arena.append (leaves policy ls) ∧ b'.root = b.root := by
  have hentries : b.supply.entries = ls.map .lexeme ++ (Supply.ofScan policy (e :: es)).entries := by
    rw [h, Supply.ofScan, List.map_append, List.map_map]
    rfl
  obtain ⟨b₁, hdrain, hrest, hpolicy, harena, hroot⟩ := drain_lexemes #[] (by rw [h]; rfl) hls hentries
  obtain ⟨hnext, harena'⟩ := next_fault hpolicy hf hrest
  exact ⟨b₁.next.2, hdrain.trans (drain_error hnext), harena'.trans harena, hroot⟩

end Lexemes

end Formula.Bench
