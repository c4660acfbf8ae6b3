import Formula.Proofs.Budget
import Formula.Proofs.Grammar.Construction

/-!
# The nodes of a program

Every node of a derived tree has a token of its own, an operator, a sign, an opening parenthesis, '=' or ';'. So a
program has no more nodes beside its leaves than tokens that can pay for one (`DerivesProgram.size_build_le`).
-/

namespace Formula.Grammar

section

variable {w : List Token}

/-- How many tokens can pay for a node. -/
def payers (w : List Token) : Nat :=
  w.countP fun t => t.kind.pays

@[simp] theorem payers_append (u v : List Token) : payers (u ++ v) = payers u + payers v :=
  List.countP_append

theorem payers_cons_of_pays {t : Token} (h : t.kind.pays = true) (w : List Token) : payers (t :: w) = payers w + 1 :=
  List.countP_cons_of_pos h

/-- An operator pays for its node, and its operands for theirs. -/
theorem size_build_binary_le {u v : List Token} {t : Token} {o : Operator} {l r : Tree}
    (hl : ∀ a, (l.build a).2.size ≤ a.size + payers u) (hr : ∀ a, (r.build a).2.size ≤ a.size + payers v)
    (hpays : t.kind.pays = true) (a : Arena) :
    ((Tree.binary o l r).build a).2.size ≤ a.size + payers (u ++ t :: v) := by
  rw [Tree.build_binary, Arena.size_push, payers_append, payers_cons_of_pays hpays]
  have hleft := hl a
  have hright := hr (l.build a).2
  omega

theorem Derives.size_build_le {c : Category} {e : Tree} (h : Derives c w e) (a : Arena) :
    (e.build a).2.size ≤ a.size + payers w := by
  induction h generalizing a with
  | @additive u v t l r o _ ho _ ihl ihr =>
    have hpays : t.kind.pays = true := by rcases Kind.eq_of_additive? ho with hk | hk <;> rw [hk] <;> rfl
    exact size_build_binary_le ihl ihr hpays a
  | @multiplicative u v t l r o _ ho _ ihl ihr =>
    have hpays : t.kind.pays = true := by rcases Kind.eq_of_multiplicative? ho with hk | hk <;> rw [hk] <;> rfl
    exact size_build_binary_le ihl ihr hpays a
  | negation hk _ ih =>
    rw [Tree.build_negation, Arena.size_push, payers_cons_of_pays (by rw [hk]; rfl)]
    exact Nat.succ_le_succ (ih a)
  | leaf _ _ => exact Nat.le_add_right _ _
  | paren hk _ _ ih =>
    rw [Tree.build_paren, Arena.size_push, payers_cons_of_pays (by rw [hk]; rfl), payers_append]
    have := ih a
    omega
  | ofTerm _ ih | ofFactor _ ih | ofAtom _ ih => exact ih a

theorem DerivesStatement.size_build_le {s : Statement} (h : DerivesStatement w s) (a : Arena) :
    (s.build a).2.size ≤ a.size + payers w := by
  cases h with
  | @assignment w t t' x e hk hp hk' he =>
    have hw : payers (t' :: w) ≤ payers (t :: t' :: w) := (List.sublist_cons_self _ _).countP_le
    rw [payers_cons_of_pays (by rw [hk']; rfl)] at hw
    rw [Statement.build_assignment, Arena.size_push]
    have := he.size_build_le a
    omega
  | expression he => exact he.size_build_le a

theorem DerivesStatements.size_buildAll_le {ss : List Statement} (h : DerivesStatements w ss) (a : Arena) :
    (buildAll ss a).2.size + ss.length ≤ a.size + payers w + 1 := by
  induction h with
  | single hs =>
    have := hs.size_build_le a
    simp only [buildAll, List.length_singleton]
    omega
  | @more u v t ss s _ hk hs ih =>
    have hlast := hs.size_build_le (buildAll ss a).2
    have hbuild : (buildAll (ss ++ [s]) a).2 = (s.build (buildAll ss a).2).2 := by
      rw [buildAll_append]
      rfl
    rw [hbuild, payers_append, payers_cons_of_pays (by rw [hk]; rfl), List.length_append, List.length_singleton]
    omega

/-- The tokens of a program pay for its nodes. -/
theorem DerivesProgram.size_build_le {ss : List Statement} (h : DerivesProgram w ss) (a : Arena) :
    (buildProgram ss a).2.size ≤ a.size + payers w := by
  have hall : (buildAll ss a).2.size + ss.length ≤ a.size + payers w + 1 := by
    cases h with
    | plain hss => exact hss.size_buildAll_le a
    | closed hss _ =>
      have := hss.size_buildAll_le a
      rw [payers_append]
      omega
  rcases ss with _ | ⟨s, _ | ⟨s', ss⟩⟩
  · exact absurd rfl h.ne_nil
  · exact Nat.le_of_succ_le_succ hall
  · show ((buildAll (s :: s' :: ss) a).2.push (.sequence (buildAll (s :: s' :: ss) a).1)).size ≤ _
    rw [Arena.size_push]
    simp only [List.length_cons] at hall
    omega

end

end Formula.Grammar
