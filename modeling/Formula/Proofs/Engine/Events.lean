import Formula.Engine
import Formula.Proofs.Bench.Request

/-!
# What is noted while an engine runs

`e.handed b` lists the tokens that the requests of the engine `e` are answered with from the bench `b` on, those that
the grammar takes for it among them, each with the entry that it was made for. For a lexeme its token is noted, behind
the number that was taken for it if only a part of it is a number (`Lexeme.noted`), and nothing else is noted during a
run (`hands_run`).
-/

namespace Formula

namespace Lexeme

/-- The leaf for a numeral that is no number, if the policy takes the number it begins with. -/
def fallback? : Policy → Lexeme → Option Node
  | .permissive, ⟨.integer, text, _⟩ =>
    if (Numeral.integer? text.toList).isNone then some (.integer (Numeral.leadingInteger text.toList)) else none
  | .permissive, ⟨.fixed, text, _⟩ =>
    if (Numeral.fixed? text.toList).isNone then some (.fixed (Numeral.leadingFixed text.toList)) else none
  | _, _ => none

/-- What is noted when a token is handed out for the lexeme. -/
def noted (policy : Policy) (l : Lexeme) (t : Token) : List Event :=
  match l.fallback? policy with
  | some leaf => [.converted l.text leaf, .token t l.text]
  | none => [.token t l.text]

/-- A conversion is noted for the numerals that are no numbers and for no others. -/
theorem events_of_leaf {policy : Policy} {l : Lexeme} {conversion : Conversion Node}
    (h : l.leaf policy = some conversion) (t : Token) :
    conversion.events l.text ++ [.token t l.text] = l.noted policy t := by
  obtain ⟨kind, text, span⟩ := l
  cases kind with
  | identifier =>
    cases h
    cases policy <;> rfl
  | integer =>
    cases h
    cases hwhole : Numeral.integer? text.toList <;> cases policy <;>
      simp [noted, fallback?, Policy.integer, Policy.settle, hwhole, Conversion.map, Conversion.events]
  | fixed =>
    cases h
    cases policy with
    | strict =>
      cases hwhole : (Numeral.fixed? text.toList).filter Binary64.isFinite <;>
        simp [noted, fallback?, Policy.fixed, Policy.settle, hwhole, Conversion.map, Conversion.events]
    | permissive =>
      cases hwhole : Numeral.fixed? text.toList <;>
        simp [noted, fallback?, Policy.fixed, Policy.settle, hwhole, Conversion.map, Conversion.events]
  | plus | minus | star | slash | leftParen | rightParen | assign | semicolon => cases h

theorem noted_of_leaf_eq_none {policy : Policy} {l : Lexeme} (h : l.leaf policy = none) (t : Token) :
    l.noted policy t = [.token t l.text] := by
  obtain ⟨kind, text, span⟩ := l
  cases kind with
  | identifier | integer | fixed => cases h
  | plus | minus | star | slash | leftParen | rightParen | assign | semicolon => cases policy <;> rfl

end Lexeme

namespace Supply.Entry

/-- What is noted when a token is handed out for the entry. -/
def noted (policy : Policy) : Supply.Entry × Token → List Event
  | (.lexeme l, t) => l.noted policy t
  | _ => []

/-- The token may be handed out for the entry. -/
def Gives : Supply.Entry → Token → Prop
  | .lexeme l, t => t.kind = l.kind
  | .token t' _, t => t = t'
  | .failure _, _ => False

end Supply.Entry

namespace Bench

variable {b b' b'' : Bench} {t : Token} {l l' : List (Supply.Entry × Token)}

/-- The token that the next request is answered with, if it is, and the entry that it was made for. -/
def handed (b : Bench) : List (Supply.Entry × Token) :=
  match b.next.1 with
  | .ok (some t) => b.supply.entries.head?.toList.map fun entry => (entry, t)
  | _ => []

theorem length_entries_next_lt (h : b.next.1 = .ok (some t)) :
    b.next.2.supply.entries.length < b.supply.entries.length := by
  rw [entries_next, List.length_tail]
  refine Nat.sub_lt (List.length_pos_iff.mpr fun hnil => ?_) Nat.one_pos
  have hend := (Supply.result_next_eq_ok_none_iff b.supply b.arena).mpr hnil
  cases hend.symm.trans h

/-- The tokens that are taken, up to the request that gives none. -/
def drainHanded (b : Bench) : List (Supply.Entry × Token) :=
  match _h : b.next.1 with
  | .ok (some _) => b.handed ++ drainHanded b.next.2
  | _ => []
termination_by b.supply.entries.length
decreasing_by exact length_entries_next_lt _h

theorem drainHanded_some (h : b.next.1 = .ok (some t)) : b.drainHanded = b.handed ++ b.next.2.drainHanded := by
  rw [drainHanded]
  split
  · rfl
  · rename_i hne
    exact absurd h (hne t)

theorem drainHanded_eq_nil (h : ∀ t, b.next.1 ≠ .ok (some t)) : b.drainHanded = [] := by
  rw [drainHanded]
  split
  · rename_i t ht
    exact absurd ht (h t)
  · rfl

/-- The tokens that are taken from a scan are made for the lexemes before its first fault. -/
theorem map_fst_drainHanded {policy : Policy} {es : List (Except Failure Lexeme)} (hpolicy : b.supply.policy = policy)
    (h : b.supply.entries = (Supply.ofScan policy es).entries) :
    b.drainHanded.map Prod.fst = (accepted policy es).map .lexeme := by
  induction es generalizing b with
  | nil =>
    have hend : b.next.1 = .ok none := (Supply.result_next_eq_ok_none_iff b.supply b.arena).mpr h
    rw [drainHanded_eq_nil (by simp [hend])]
    rfl
  | cons e es ih =>
    cases hf : fault? policy e with
    | some f =>
      have hfault : b.next.1 = .error f := congrArg Prod.fst (next_fault hpolicy hf h).1
      rw [drainHanded_eq_nil (by simp [hfault]), accepted_of_fault hf]
      rfl
    | none =>
      cases e with
      | error f => cases hf
      | ok l =>
        have hl : l.leaf policy ≠ some .refused := fun hrefused => by simp [fault?, hrefused] at hf
        obtain ⟨t, b', hnext, hentries, hpolicy', -⟩ := next_lexeme hpolicy hl h
        have hhanded : b.handed = [(.lexeme l, t)] := by
          rw [handed, hnext, h]
          rfl
        rw [drainHanded_some (congrArg Prod.fst hnext), hhanded, hnext, List.map_append, ih hpolicy' hentries,
          accepted, if_neg hl]
        rfl

/-- All entries that a bench may come upon: those of its supply, and those behind its end. -/
def store (b : Bench) : List Supply.Entry :=
  b.supply.entries ++ b.later.flatMap fun p => (Supply.ofScan b.supply.policy p.2).entries

theorem mem_store_of_mem {entry : Supply.Entry} (h : entry ∈ b.supply.entries) : entry ∈ b.store :=
  List.mem_append_left _ h

/-- Between the two benches the tokens were handed out, and nothing but them was noted. -/
structure Hands (b : Bench) (handed : List (Supply.Entry × Token)) (b' : Bench) : Prop where
  policy_eq : b'.supply.policy = b.supply.policy
  subset : b'.store ⊆ b.store
  gives : ∀ p ∈ handed, p.1 ∈ b.store ∧ p.1.Gives p.2
  journal_eq : b'.journal.toList = b.journal.toList ++ handed.flatMap (Supply.Entry.noted b.supply.policy)

theorem Hands.of_eq (hsupply : b'.supply = b.supply) (hlater : b'.later = b.later) (hjournal : b'.journal = b.journal) :
    b.Hands [] b' where
  policy_eq := congrArg Supply.policy hsupply
  subset := by
    rw [store, hsupply, hlater]
    exact List.Subset.refl _
  gives := List.forall_mem_nil _
  journal_eq := by simp [hjournal]

theorem Hands.trans (h : b.Hands l b') (h' : b'.Hands l' b'') : b.Hands (l ++ l') b'' where
  policy_eq := h'.policy_eq.trans h.policy_eq
  subset := List.Subset.trans h'.subset h.subset
  gives p hp := by
    rcases List.mem_append.mp hp with hp | hp
    · exact h.gives p hp
    · exact (h'.gives p hp).imp_left fun hmem => h.subset hmem
  journal_eq := by rw [h'.journal_eq, h.journal_eq, h.policy_eq, List.flatMap_append, List.append_assoc]

theorem Hands.of_start (h : b'.Hands l b'') (hsupply : b'.supply = b.supply) (hlater : b'.later = b.later)
    (hjournal : b'.journal = b.journal) : b.Hands l b'' :=
  Hands.trans (.of_eq hsupply hlater hjournal) h

theorem Hands.of_end (h : b.Hands l b') (hsupply : b''.supply = b'.supply) (hlater : b''.later = b'.later)
    (hjournal : b''.journal = b'.journal) : b.Hands l b'' := by
  simpa using h.trans (.of_eq hsupply hlater hjournal)

/-- What comes behind the end of a supply was in store before. -/
theorem Resumes.hands (h : b.Resumes b') : b.Hands [] b' := by
  cases h with
  | refl => exact .of_eq rfl rfl rfl
  | @refill stop scan later hlater =>
    refine ⟨rfl, ?_, List.forall_mem_nil _, (List.append_nil _).symm⟩
    have hentries : (b.refill scan later).supply.entries = (Supply.ofScan b.supply.policy scan).entries := rfl
    have hpolicy : (b.refill scan later).supply.policy = b.supply.policy := rfl
    rw [store, store, hentries, hpolicy, hlater, List.flatMap_cons]
    exact List.subset_append_right _ _

theorem Hands.of_resumes (h : b.Hands l b') (hresumes : b'.Resumes b'') : b.Hands l b'' := by
  simpa using h.trans hresumes.hands

theorem policy_next (b : Bench) : b.next.2.supply.policy = b.supply.policy := by
  unfold next Supply.next
  repeat' split
  all_goals rfl

/-- A request hands out one token at most, and notes it if it was made for a lexeme. -/
theorem gives_next (b : Bench) : (∀ p ∈ b.handed, p.1 ∈ b.supply.entries ∧ p.1.Gives p.2) ∧
    b.next.2.journal.toList = b.journal.toList ++ b.handed.flatMap (Supply.Entry.noted b.supply.policy) := by
  cases hentries : b.supply.entries with
  | nil => simp [handed, next, Supply.next, hentries]
  | cons entry rest =>
    cases entry with
    | failure f => simp [handed, next, Supply.next, hentries]
    | token t span => simp [handed, next, Supply.next, hentries, Supply.Entry.noted, Supply.Entry.Gives]
    | lexeme l =>
      cases hleaf : l.leaf b.supply.policy with
      | none =>
        simp [handed, next, Supply.next, hentries, hleaf, Supply.Entry.noted, Supply.Entry.Gives,
          l.noted_of_leaf_eq_none hleaf]
      | some conversion =>
        cases hvalue : conversion.value? with
        | none => simp [handed, next, Supply.next, hentries, hleaf, hvalue]
        | some node =>
          simp [handed, next, Supply.next, hentries, hleaf, hvalue, Supply.Entry.noted, Supply.Entry.Gives,
            ← l.events_of_leaf hleaf]

theorem hands_next (b : Bench) : b.Hands b.handed b.next.2 where
  policy_eq := b.policy_next
  subset := by
    rw [store, store, b.policy_next, b.entries_next, b.later_next]
    exact List.append_subset.mpr ⟨fun entry h => mem_store_of_mem (List.mem_of_mem_tail h),
      List.subset_append_right _ _⟩
  gives p hp := (b.gives_next.1 p hp).imp_left mem_store_of_mem
  journal_eq := b.gives_next.2

theorem hands_request (b : Bench) : b.Hands b.handed b.request.2 :=
  b.hands_next.of_resumes b.resumes_request

theorem hands_drain (taken : Array (Token × Span)) (b : Bench) : b.Hands b.drainHanded (b.drain taken).2 := by
  fun_induction drainHanded b generalizing taken with
  | case1 b t h ih =>
    have hnext : b.next = (.ok (some t), b.next.2) := Prod.ext h rfl
    rw [drain_some hnext]
    exact b.hands_next.trans (ih _)
  | case2 b h =>
    -- what gives no token hands none out
    have hnone : b.handed = [] := by
      rw [handed]
      split
      · rename_i t ht
        exact absurd ht (h t)
      · rfl
    have hlast := hnone ▸ b.hands_next
    rcases hnext : b.next with ⟨f | _ | t, b'⟩
    · rw [hnext] at hlast
      rwa [drain_error hnext]
    · rw [hnext] at hlast
      rwa [drain_none hnext]
    · exact absurd (congrArg Prod.fst hnext) (h t)

/-- The grammar notes nothing of its own. -/
theorem hands_readProgram (b : Bench) (limit : Nat) : b.Hands b.drainHanded (b.readProgram limit).2 := by
  have hdrain := b.hands_drain #[]
  rw [readProgram]
  rcases hb : b.drain #[] with ⟨f | taken, b'⟩ <;> rw [hb] at hdrain
  · exact hdrain
  · simp only
    split
    · exact hdrain
    · rcases Grammar.read (taken.map Prod.fst).toArray b'.arena with ⟨root | ⟨position, expected⟩, a⟩ <;>
        exact hdrain.of_end rfl rfl rfl

theorem hands_requestProgram (b : Bench) (limit : Nat) : b.Hands b.drainHanded (b.requestProgram limit).2 := by
  rcases b.resumes_requestProgram limit with ⟨-, hresumes⟩ | ⟨-, hresumes⟩
  · exact (b.hands_readProgram limit).of_resumes hresumes
  · exact (b.hands_drain #[]).of_resumes hresumes

end Bench

namespace Engine

variable {α : Type}

/-- The tokens that the requests of the engine are answered with, in order, each with the entry it was made for. -/
def handed : Engine α → Bench → List (Supply.Entry × Token)
  | done _, _ => []
  | next k, b => b.handed ++ (k b.request.1).handed b.request.2
  | create node k, b => (k (b.create node).1).handed (b.create node).2
  | record root k, b => k.handed (b.record root)
  | look k, b => (k b.arena b.root b.supply.span).handed b
  | readProgram limit k, b =>
    b.drainHanded ++ (k (b.requestProgram limit).1).handed (b.requestProgram limit).2

/-- Whatever an engine does, only the tokens that it gets are noted. -/
theorem hands_run (e : Engine α) (b : Bench) : b.Hands (e.handed b) (e.run b).2 := by
  induction e generalizing b with
  | done value => exact .of_eq rfl rfl rfl
  | next k ih => exact b.hands_request.trans (ih _ _)
  | create node k ih => exact (ih _ (b.create node).2).of_start rfl rfl rfl
  | record root k ih => exact (ih (b.record root)).of_start rfl rfl rfl
  | look k ih => exact ih _ _ _ _
  | readProgram limit k ih => exact (b.hands_requestProgram limit).trans (ih _ _)

end Engine

end Formula
