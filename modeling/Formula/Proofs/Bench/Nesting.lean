import Formula.Proofs.Bench.Program
import Formula.Proofs.Engine.Records
import Formula.Proofs.Grammar.Openings

/-!
# Programs that nest too deep

A program is read if no way down its trees passes more parentheses and signs than the limit allows. Otherwise it is
refused at the first token that opens one too many, and no root is recorded (`readProgram_nesting`).
-/

namespace Formula.Bench

open Grammar

variable {b : Bench} {l : List (Token × Span)} {ss : List Statement} {limit : Nat}

/-- The first token of a program that nests too deep is that of the first opening beyond the limit. -/
theorem firstTooDeep_of_derives (hss : DerivesProgram (l.map Prod.fst) ss) (limit : Nat) :
    Nesting.start.firstTooDeep limit (l.map fun (t, span) => (t.kind, span)) =
      ((openings ss).findIdx? (exceeds limit)).bind fun i => l[i]?.map Prod.snd := by
  have hkinds : (l.map fun (t, span) => (t.kind, span)).map Prod.fst = (l.map Prod.fst).map Token.kind := by simp
  rw [Nesting.firstTooDeep_eq, hkinds, hss.findIdx?_depths]
  simp [Function.comp_def]

/-- An opening beyond the limit is that of a token, a parenthesis or a minus. -/
theorem exists_token_of_findIdx? (hss : DerivesProgram (l.map Prod.fst) ss) {i : Nat}
    (hi : (openings ss).findIdx? (exceeds limit) = some i) :
    ∃ t span k, l[i]? = some (t, span) ∧ (openings ss)[i]? = some (some k) ∧ limit < k ∧
      (t.kind = .leftParen ∨ t.kind = .minus) ∧
      ∀ j < i, ∀ k', (openings ss)[j]? = some (some k') → k' ≤ limit := by
  obtain ⟨hlt, hat, hbefore⟩ := List.findIdx?_eq_some_iff_getElem.mp hi
  obtain ⟨k, hk, hlimit⟩ := exceeds_eq_true_iff.mp hat
  have hopening : (openings ss)[i]? = some (some k) := hk ▸ List.getElem?_eq_getElem hlt
  obtain ⟨t, ht, hkind⟩ := hss.exists_token hopening
  rw [List.getElem?_map] at ht
  obtain ⟨⟨t', span⟩, htoken, rfl⟩ := Option.map_eq_some_iff.mp ht
  refine ⟨t', span, k, htoken, hopening, hlimit, hkind, fun j hj k' hk' => ?_⟩
  obtain ⟨hlt', hat'⟩ := List.getElem?_eq_some_iff.mp hk'
  exact Nat.not_lt.mp fun hk' => hbefore j hj (exceeds_eq_true_iff.mpr ⟨k', hat', hk'⟩)

/-- A program is read if and only if no way down from its root passes more parentheses and signs than the limit.
Otherwise it is refused where its first parenthesis or sign is that has more of them on the way down to it, with itself
counted, and no root is recorded. -/
theorem readProgram_nesting (h : b.supply.entries = l.map fun (t, span) => .token t span)
    (hss : DerivesProgram (l.map Prod.fst) ss) (limit : Nat) :
    ((b.readProgram limit).1 = .ok () ↔ ∀ s ∈ ss, s.depth ≤ limit) ∧
    ((¬ ∀ s ∈ ss, s.depth ≤ limit) → ∃ (i : Nat) (t : Token) (span : Span) (k : Nat), l[i]? = some (t, span) ∧
      (openings ss)[i]? = some (some k) ∧ limit < k ∧ (t.kind = .leftParen ∨ t.kind = .minus) ∧
      (∀ j < i, ∀ k', (openings ss)[j]? = some (some k') → k' ≤ limit) ∧
      (b.readProgram limit).1 = .error (.tooDeep span.start limit) ∧
      (b.readProgram limit).2.root = b.root) := by
  obtain ⟨b', hdrain, -⟩ := drain_tokens #[] l h
  rw [List.nil_append] at hdrain
  have hdeep := firstTooDeep_of_derives hss limit
  rw [← findIdx?_openings_eq_none_iff]
  cases hi : (openings ss).findIdx? (exceeds limit) with
  | none =>
    rw [hi] at hdeep
    rw [readProgram_of_derives hdrain hdeep hss]
    exact ⟨iff_of_true rfl rfl, fun hne => absurd rfl hne⟩
  | some i =>
    obtain ⟨t, span, k, htoken, hopening, hlt, hkind, hfirst⟩ := exists_token_of_findIdx? hss hi
    rw [hi, Option.bind_some, htoken] at hdeep
    have hroot : b'.root = b.root := by rw [← root_drain #[] b, hdrain]
    rw [readProgram_of_tooDeep hdrain hdeep]
    exact ⟨iff_of_false nofun nofun, fun _ => ⟨i, t, span, k, htoken, hopening, hlt, hkind, hfirst, rfl, hroot⟩⟩

section

/-- A bench with the tokens of `a - -(b)`. -/
def benchOfSigned : Bench where
  arena := ⟨0, #[.identifier "a", .identifier "b"]⟩
  root := none
  supply := ⟨.strict, signed.map fun (t, span) => .token t span, .origin⟩
  journal := #[]
where
  signed : List (Token × Span) :=
    [(⟨.identifier, some ⟨0, 0⟩⟩, ⟨0, 1⟩), (⟨.minus, none⟩, ⟨2, 3⟩), (⟨.minus, none⟩, ⟨4, 5⟩),
      (⟨.leftParen, none⟩, ⟨5, 6⟩), (⟨.identifier, some ⟨0, 1⟩⟩, ⟨6, 7⟩), (⟨.rightParen, none⟩, ⟨7, 8⟩)]

/-- The sign and the parenthesis behind it count, the minus between the operands does not. -/
theorem readProgram_nesting_signed :
    (benchOfSigned.readProgram 2).1 = .ok () ∧ (benchOfSigned.readProgram 1).1 = .error (.tooDeep 5 1) ∧
      (benchOfSigned.readProgram 1).2.root = none := by
  have hleaf : ∀ (t : Token) (id : NodeId), t.kind.isValued = true → t.payload = some id →
      Derives .factor [t] (.leaf id) := fun _ _ hv hp => .ofAtom (.leaf hv hp)
  have hparen : Derives .atom (benchOfSigned.signed.map Prod.fst).tail.tail.tail (.paren (.leaf ⟨0, 1⟩)) :=
    .paren (w := [_]) rfl (.ofTerm (.ofFactor (hleaf _ _ rfl rfl))) rfl
  have hss : DerivesProgram (benchOfSigned.signed.map Prod.fst)
      [.expression (.binary .sub (.leaf ⟨0, 0⟩) (.negation (.paren (.leaf ⟨0, 1⟩))))] :=
    .plain (.single (.expression (.additive (u := [_]) (.ofTerm (.ofFactor (hleaf _ _ rfl rfl))) rfl
      (.ofFactor (.negation rfl (.ofAtom hparen))))))
  obtain ⟨hread, -⟩ := readProgram_nesting (b := benchOfSigned) rfl hss 2
  obtain ⟨-, hrefused⟩ := readProgram_nesting (b := benchOfSigned) rfl hss 1
  obtain ⟨i, t, span, k, htoken, hopening, hlt, -, -, hresult, hroot⟩ :=
    hrefused (by decide)
  refine ⟨hread.mpr (by decide), ?_, hroot⟩
  have hi : i = 3 := by
    have hopenings : openings [.expression (.binary .sub (.leaf ⟨0, 0⟩) (.negation (.paren (.leaf ⟨0, 1⟩))))] =
        [none, none, some 1, some 2, none, none, none] := rfl
    rw [hopenings] at hopening
    rcases i with _ | _ | _ | _ | _ | _ | _ | i <;> simp at hopening <;> omega
  subst hi
  cases htoken
  exact hresult

end

end Formula.Bench
