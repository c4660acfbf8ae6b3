import Formula.Proofs.Grammar.Marking
import Formula.Proofs.Grammar.Prefix

/-!
# What is marked where tokens stop being a program

Let the tokens before a position be the beginning of a phrase in which some token follows that is not there: no phrase
goes on with the one that is (`Stuck`). Then the rule of the phrase marks the class of the missing token at the
position (`Derives.marks`, `DerivesProgram.marks`). The phrases that end before the position are read to their ends,
and so is one that ends there, since an operator behind it could go on.
-/

namespace Formula.Grammar

open Rule hiding pure bind

/-! ## Derivations -/

section Derivations

variable {tokens : Array Token} {p i : Nat} {u w x y : List Token} {t t' : Token} {P Q : List Token → Prop}

theorem Stuck.not_of_frames (h : Stuck tokens Q u p) (ht : tokens[p]? = some t) (hf : Frames (u ++ [t]) y P Q)
    (hw : P w) : False := by
  have hQ := hf.apply hw
  rw [List.append_assoc, ← List.append_cons] at hQ
  exact h t _ ht hQ

theorem Stuck.noMultiplicative (h : Stuck tokens Q u p)
    (hf : ∀ t o, t.kind.multiplicative? = some o → Frames (u ++ [t]) [] (Phrase .factor) Q) :
    NoMultiplicative tokens p := by
  intro t ht
  refine Option.eq_none_iff_forall_ne_some.mpr fun o ho => ?_
  exact h.not_of_frames ht (hf t o ho) (phrase_name .factor)

theorem Stuck.noAdditive (h : Stuck tokens (Phrase .expr) u p) (hu : Phrase .expr u) : NoAdditive tokens p := by
  intro t ht
  refine Option.eq_none_iff_forall_ne_some.mpr fun o ho => ?_
  exact h.not_of_frames ht (frames_additive hu ho) (phrase_name .term)

theorem Stuck.right (h : Stuck tokens Q (x ++ t :: u) p) (hf : Frames (x ++ [t]) y P Q) : Stuck tokens P u p :=
  Stuck.of_frames (List.append_cons x t u ▸ h) hf

/-- A token of a word in two parts with a token between them. -/
theorem append_cons_cases {u v x y : List Token} {t t' : Token} (h : x ++ t' :: y = u ++ t :: v) :
    (∃ v', x = u ++ t :: v') ∨ (x = u ∧ t' = t) ∨ ∃ u', u = x ++ t' :: u' ∧ y = u' ++ t :: v := by
  rcases List.append_eq_append_iff.mp h with ⟨a, hu, hy⟩ | ⟨a, hx, hv⟩
  · cases a with
    | nil =>
      obtain ⟨rfl, rfl⟩ := List.cons.inj hy
      exact .inr (.inl ⟨by simpa using hu.symm, rfl⟩)
    | cons t₁ u' =>
      obtain ⟨rfl, rfl⟩ := List.cons.inj hy
      exact .inr (.inr ⟨u', hu, rfl⟩)
  · cases a with
    | nil =>
      obtain ⟨rfl, rfl⟩ := List.cons.inj hv
      exact .inr (.inl ⟨by simpa using hx, rfl⟩)
    | cons t₁ v' =>
      obtain ⟨rfl, rfl⟩ := List.cons.inj hv
      exact .inl ⟨v', hx⟩

theorem length_le_of_append_cons {n : Nat} (h : (x ++ t :: u).length ≤ n) : u.length ≤ n := by
  simp only [List.length_append, List.length_cons] at h
  omega

/-! ### Missing tokens -/

section Missing

variable {n m : Nat} {c : Class} {l e : Tree} {o : Operator} {k : Kind}

theorem Stuck.payload_eq_none (h : Stuck tokens (Phrase .atom) [] p) (ht : tokens[p]? = some t)
    (hv : t.kind.isValued = true) : t.payload = none :=
  Option.eq_none_iff_forall_ne_some.mpr fun _ hp => h t [] ht ⟨_, .leaf hv hp⟩

/-- Where no atom starts, all tokens that could start one are missing. -/
theorem marks_atom (h : Stuck tokens (Phrase .atom) [] p) (hc : c = .identifier ∨ c = .literal ∨ c = .leftParen) :
    Marks tokens c p (atom (inner n)) p := by
  have hsim := simulation_marked tokens c p
  have hparen : Keeps tokens c p (do
      Rule.symbol .leftParen
      let inner ← inner n .sum
      Rule.symbol .rightParen
      Rule.create (.paren inner)) := (simulates_symbol hsim _).bind fun _ _ _ => keepsAll_paren n () ()
  have hname : ∀ t, tokens[p]? = some t → Class.ofKind t.kind = .identifier → t.payload = none :=
    fun t ht hc => h.payload_eq_none ht ((Class.isValued_iff _).mpr (.inl hc))
  have hliteral : ∀ t, tokens[p]? = some t → Class.ofKind t.kind = .literal → t.payload = none :=
    fun t ht hc => h.payload_eq_none ht ((Class.isValued_iff _).mpr (.inr hc))
  rcases hc with rfl | rfl | rfl
  · exact (marks_leaf hname).orElse ((simulates_leaf hsim _).orElse hparen)
  · exact Marks.or (fun _ => misses_leaf_of_payload hname) ((marks_leaf hliteral).orElse hparen)
  · refine Marks.or (fun _ => misses_leaf_of_payload hname) (Marks.or (fun _ => misses_leaf_of_payload hliteral) ?_)
    refine (marks_symbol fun t ht hc => ?_).bind (keepsAll_paren n)
    have hk : t.kind = .leftParen := Class.eq_kind hc (by decide)
    exact h.not_of_frames ht (frames_paren (s := Class.rightParen.sample) hk rfl) (phrase_name .expr)

theorem Stuck.ne_minus (h : Stuck tokens (Phrase .factor) [] p) : ∀ t, tokens[p]? = some t → t.kind ≠ .minus :=
  fun _ ht hk => h.not_of_frames ht (frames_negation hk) (phrase_name .factor)

theorem marks_factor (h : Stuck tokens (Phrase .factor) [] p) : Marks tokens .minus p (factor (inner n)) p := by
  have hsymbol : Marks tokens .minus p (symbol .minus) p :=
    marks_symbol fun t ht hc => h.ne_minus t ht (Class.eq_kind hc (by decide))
  exact (hsymbol.bind fun _ _ => (keeps_inner n .factor).bind (keepsAll_create _)).orElse (keeps_atom n)

end Missing

/-- What the rules that nest no deeper than the bound mark, where the tokens from a position on are the beginning of
the category. -/
def Marking (tokens : Array Token) (n : Nat) (c : Class) (p : Nat) (u : List Token) (i : Nat) : Category → Prop
  | .atom => Stuck tokens (Phrase .atom) u p → Marks tokens c p (atom (inner n)) i
  | .factor => Stuck tokens (Phrase .factor) u p → Marks tokens c p (factor (inner n)) i
  | .term => (Stuck tokens (Phrase .term) u p → Marks tokens c p (product (inner n)) i) ∧
      (Stuck tokens (Phrase .expr) u p → Marks tokens c p (sum (inner n)) i)
  | .expr => Stuck tokens (Phrase .expr) u p → Marks tokens c p (sum (inner n)) i

/-! ### Operators and parentheses -/

section Operators

variable {n : Nat} {c : Class} {l e : Tree} {o : Operator}

/-- Where a sum ends, an operator is missing. -/
theorem Derives.marks_additive (hl : Derives .expr x l) (ho : t.kind.additive? = some o) (hn : x.length ≤ n)
    (hx : Reads tokens i x p) : Marking tokens n (Class.ofKind t.kind) p x i .expr := fun hstuck =>
  have hm : NoMultiplicative tokens p := hstuck.noMultiplicative fun _ _ => frames_multiplicative_expr ⟨l, hl⟩
  have ha : NoAdditive tokens p := hstuck.noAdditive ⟨l, hl⟩
  LoopsTo.marks (hl.complete hn hx hm) (marks_sumStep_of_noAdditive ha ho) (keepsAll_sumStep n)

/-- Behind an operator of a sum, what is missing in its right operand is. -/
theorem Derives.marks_additive_right (hl : Derives .expr x l) (ho : t.kind.additive? = some o)
    (hn : (x ++ t :: u).length ≤ n) (hx : Reads tokens i (x ++ t :: u) p)
    (hright : Reads tokens (i + x.length + 1) u p → Marking tokens n c p u (i + x.length + 1) .term) :
    Marking tokens n c p (x ++ t :: u) i .expr := by
  intro hstuck
  obtain ⟨hx, hrest⟩ := hx.split
  obtain ⟨ht, hu⟩ := hrest.head
  have hm := noMultiplicative_of_getElem? ht (Kind.multiplicative?_of_additive? ho)
  have hterm := (hright hu).1 (hstuck.right (frames_additive ⟨l, hl⟩ ho))
  rw [List.length_append] at hn
  exact LoopsTo.marks (hl.complete (Nat.le_of_add_right_le hn) hx hm) (marks_sumStep_of_product ht ho hterm)
    (keepsAll_sumStep n)

/-- Where a product ends, an operator is missing, in a product as well as in a sum. -/
theorem Derives.marks_multiplicative (hl : Derives .term x l) (ho : t.kind.multiplicative? = some o)
    (hn : x.length ≤ n) (hx : Reads tokens i x p) : Marking tokens n (Class.ofKind t.kind) p x i .term := by
  have hloops := hl.complete hn hx
  refine ⟨fun hstuck => ?product, fun hstuck => ?sum⟩
  case product =>
    have hm := hstuck.noMultiplicative fun _ _ => frames_multiplicative ⟨l, hl⟩
    exact hloops.1.marks (marks_productStep_of_noMultiplicative hm ho) (keepsAll_productStep n)
  case sum =>
    have he : Phrase .expr x := ⟨l, .ofTerm hl⟩
    have hm := hstuck.noMultiplicative fun _ _ => frames_multiplicative_expr he
    refine hloops.2.marks (fun left => ?_) (keepsAll_sumStep n)
    exact marks_sumStep_of_productStep (hstuck.noAdditive he) (marks_productStep_of_noMultiplicative hm ho left)

/-- Behind an operator of a product, what is missing in its right operand is. -/
theorem Derives.marks_multiplicative_right (hl : Derives .term x l) (ho : t.kind.multiplicative? = some o)
    (hn : (x ++ t :: u).length ≤ n) (hx : Reads tokens i (x ++ t :: u) p)
    (hright : Reads tokens (i + x.length + 1) u p → Marking tokens n c p u (i + x.length + 1) .factor) :
    Marking tokens n c p (x ++ t :: u) i .term := by
  obtain ⟨hx, hrest⟩ := hx.split
  obtain ⟨ht, hu⟩ := hrest.head
  rw [List.length_append] at hn
  have hloops := hl.complete (Nat.le_of_add_right_le hn) hx
  refine ⟨fun hstuck => ?product, fun hstuck => ?sum⟩
  case product =>
    have hfactor := hright hu (hstuck.right (frames_multiplicative ⟨l, hl⟩ ho))
    exact hloops.1.marks (marks_productStep_of_factor ht ho hfactor) (keepsAll_productStep n)
  case sum =>
    have ha := noAdditive_of_getElem? ht (Kind.additive?_of_multiplicative? ho)
    have hfactor := hright hu (hstuck.right (frames_multiplicative_expr ⟨l, .ofTerm hl⟩ ho))
    refine hloops.2.marks (fun left => ?_) (keepsAll_sumStep n)
    exact marks_sumStep_of_productStep ha (marks_productStep_of_factor ht ho hfactor left)

/-- Behind an opening parenthesis, what is missing in the contents is, or where they end the closing one. -/
theorem Derives.marks_paren {v : List Token} {t₁ t₂ : Token} (he : Derives .expr w e) (hk : t₁.kind = .leftParen)
    (hk' : t₂.kind = .rightParen) (hw : w ++ [t₂] = u ++ t :: v) (hn : (t₁ :: u).length ≤ n)
    (hx : Reads tokens i (t₁ :: u) p)
    (hinner : ∀ {n i : Nat} {v : List Token}, w = u ++ t :: v → u.length ≤ n → Reads tokens i u p →
      Marking tokens n (Class.ofKind t.kind) p u i .expr) :
    Marking tokens n (Class.ofKind t.kind) p (t₁ :: u) i .atom := by
  intro hstuck
  obtain ⟨ht₁, hu⟩ := hx.head
  have hstuck' : Stuck tokens (Phrase .expr) u p := hstuck.of_frames (x := [t₁]) (frames_paren hk hk')
  cases n with
  | zero => simp at hn
  | succ n =>
    have hn : u.length ≤ n := Nat.le_of_succ_le_succ hn
    refine marks_atom_of_paren (e := e) ht₁ hk ?_
    rcases append_cons_cases hw with ⟨v', rfl⟩ | ⟨rfl, rfl⟩ | ⟨u', -, hnil⟩
    · left
      rw [inner, expression_eq]
      exact hinner rfl hn hu hstuck'
    · -- the contents end at the position, and the closing parenthesis is missing
      have hm := hstuck'.noMultiplicative fun _ _ => frames_multiplicative_expr ⟨e, he⟩
      refine .inr ⟨by rw [hk']; rfl, builds_expression he hn hu (hstuck'.noAdditive ⟨e, he⟩) hm, ?_⟩
      exact fun t' ht' hc => hstuck t' [] ht' ⟨_, .paren hk he (Class.eq_kind hc (by decide))⟩
    · simp at hnil

end Operators

/-- A phrase marks the class of a token that it goes on with, where no phrase goes on with the one that is there. -/
theorem Derives.marks {cat : Category} {e : Tree} (h : Derives cat w e) :
    ∀ {n i : Nat} {u v : List Token} {t : Token}, w = u ++ t :: v → u.length ≤ n → Reads tokens i u p →
      Marking tokens n (Class.ofKind t.kind) p u i cat := by
  induction h with
  | additive hl ho hr ihl ihr =>
    intro n i u v t hw hn hu
    rcases append_cons_cases hw with ⟨v', rfl⟩ | ⟨rfl, rfl⟩ | ⟨u', rfl, rfl⟩
    · exact ihl rfl hn hu
    · exact hl.marks_additive ho hn hu
    · exact hl.marks_additive_right ho hn hu (ihr rfl (length_le_of_append_cons hn))
  | ofTerm _ ih =>
    intro n i u v t hw hn hu
    exact (ih hw hn hu).2
  | multiplicative hl ho hr ihl ihr =>
    intro n i u v t hw hn hu
    rcases append_cons_cases hw with ⟨v', rfl⟩ | ⟨rfl, rfl⟩ | ⟨u', rfl, rfl⟩
    · exact ihl rfl hn hu
    · exact hl.marks_multiplicative ho hn hu
    · exact hl.marks_multiplicative_right ho hn hu (ihr rfl (length_le_of_append_cons hn))
  | ofFactor _ ih =>
    intro n i u v t hw hn hu
    refine ⟨fun hstuck => ?product, fun hstuck => ?sum⟩
    case product =>
      have hfactor := ih hw hn hu (hstuck.of_frames (x := []) frames_factor_term)
      exact hfactor.bind (keepsAll_productStep n).iterate
    case sum =>
      have hterm : Stuck tokens (Phrase .term) u p := hstuck.of_frames (x := []) frames_term_expr
      have hfactor := ih hw hn hu (hterm.of_frames (x := []) frames_factor_term)
      exact hfactor.bind (keepsAll_sumStep n).iterate
  | @negation w t' e hk hf ih =>
    intro n i u v t hw hn hu hstuck
    cases u with
    | nil =>
      obtain ⟨rfl, rfl⟩ := List.cons.inj hw
      obtain rfl : p = i := hu.1
      rw [hk]
      exact marks_factor hstuck
    | cons t₀ u' =>
      obtain ⟨rfl, hw'⟩ := List.cons.inj hw
      obtain ⟨ht', hu'⟩ := hu.head
      cases n with
      | zero => simp at hn
      | succ n =>
        refine marks_factor_of_minus ht' hk ?_
        rw [inner, expression_eq]
        exact ih hw' (Nat.le_of_succ_le_succ hn) hu' (hstuck.of_frames (x := [t']) (frames_negation hk))
  | ofAtom ha ih =>
    intro n i u v t hw hn hu hstuck
    refine marks_factor_of_atom (fun t₁ ht₁ hk₁ => ?_) (ih hw hn hu (hstuck.of_frames (x := []) frames_atom_factor))
    cases u with
    | nil =>
      obtain rfl : p = i := hu.1
      exact hstuck.ne_minus t₁ ht₁ hk₁
    | cons t₀ u' =>
      obtain ⟨t₂, w', rfl, hk⟩ := ha.head_ne_minus
      obtain ⟨rfl, -⟩ := List.cons.inj hw
      cases Option.some.inj (hu.head.1.symm.trans ht₁)
      exact hk hk₁
  | leaf hv hp =>
    intro n i u v t hw hn hu hstuck
    cases u with
    | nil =>
      obtain ⟨rfl, -⟩ := List.cons.inj hw
      obtain rfl : p = i := hu.1
      exact marks_atom hstuck (((Class.isValued_iff _).mp hv).imp_right .inl)
    | cons t₀ u' => simp at hw
  | @paren w t₁ t₂ e hk he hk' ih =>
    intro n i u v t hw hn hu hstuck
    cases u with
    | nil =>
      obtain ⟨rfl, -⟩ := List.cons.inj hw
      obtain rfl : p = i := hu.1
      exact marks_atom hstuck (.inr (.inr (by rw [hk]; rfl)))
    | cons t₀ u' =>
      obtain ⟨rfl, hw'⟩ := List.cons.inj hw
      exact he.marks_paren hk hk' hw' hn hu ih hstuck

end Derivations

/-! ## Statements -/

section Statements

variable {tokens : Array Token} {c : Class} {n p i j : Nat} {u w x : List Token} {s : Statement} {ss : List Statement}

theorem keeps_expression (n : Nat) : Keeps tokens c p (expression n .sum) :=
  simulates_expression (simulation_marked tokens c p) (Nat.le_refl n) .sum

theorem keepsAll_pure {α β : Type} (f : α → β) : KeepsAll tokens c p fun a => (pure (f a) : Rule β) :=
  fun _ _ => simulates_pure trivial

theorem keepsAll_nextStatement (n : Nat) : KeepsAll tokens c p (nextStatement (expression n .sum)) :=
  fun _ _ => (simulates_symbol (simulation_marked tokens c p) _).bind fun _ _ _ =>
    (simulates_statement (simulation_marked tokens c p) (keeps_expression n)).bind fun _ _ _ => simulates_pure trivial

theorem keepsAll_rootOf : KeepsAll tokens c p rootOf := by
  intro items items' i s s' hs
  rcases items with _ | ⟨_, _ | ⟨_, _⟩⟩ <;> rcases items' with _ | ⟨_, _ | ⟨_, _⟩⟩ <;> exact .matched i trivial hs

/-- Where no statement goes on with the token, an expression is not taken for an assignment. -/
theorem Stuck.misses_assignment {expr : Rule NodeId} {e : Tree} {t : Token} {v : List Token}
    (h : Stuck tokens IsStatement u p) (he : Derives .expr (u ++ t :: v) e) (hu : Reads tokens i u p) (run : Run) :
    Misses tokens (assignment expr) i run := by
  refine misses_assignment_of (fun t₁ id t₂ ht₁ hk hp ht₂ hk₂ => ?_) run
  rcases u with _ | ⟨t₀, _ | ⟨t₃, u⟩⟩
  · obtain rfl : p = i := hu.1
    exact h t₁ [] ht₁ ⟨_, .expression (.ofTerm (.ofFactor (.ofAtom (.leaf (by rw [hk]; rfl) hp))))⟩
  · obtain rfl : p = i + 1 := hu.1
    obtain rfl : t₀ = t₁ := Option.some.inj (hu.head.1.symm.trans ht₁)
    exact h.not_of_frames ht₂ (frames_assignment hk hp hk₂) (phrase_name .expr)
  · obtain rfl : t₃ = t₂ := Option.some.inj (hu.head.2.head.1.symm.trans ht₂)
    exact (he.kind_ne t₃ (by simp)).1 hk₂

/-- An assignment leaves the marks of its value. -/
theorem marks_assignment_of_value {expr : Rule NodeId} {t₁ t₂ : Token} {id : NodeId} (ht₁ : tokens[i]? = some t₁)
    (hk : t₁.kind = .identifier) (hp : t₁.payload = some id) (ht₂ : tokens[i + 1]? = some t₂)
    (hk' : t₂.kind = .assign) (h : Marks tokens c p expr (i + 1 + 1)) : Marks tokens c p (assignment expr) i := by
  refine Marks.matched_bind (fun _ => ⟨_, _, matches_leaf ht₁ (by rw [hk]; rfl) hp⟩) fun _ => ?_
  refine Marks.matched_bind (fun _ => ⟨_, _, matches_symbol ht₂ (by rw [hk']; rfl)⟩) fun _ => ?_
  exact h.bind (keepsAll_create _)

/-- What a statement marks that begins at the position. -/
theorem DerivesStatement.marks (hs : DerivesStatement w s) {v : List Token} {t : Token} (hw : w = u ++ t :: v)
    (hn : u.length ≤ n) (hu : Reads tokens i u p) (h : Stuck tokens IsStatement u p) :
    Marks tokens (Class.ofKind t.kind) p (statement (Grammar.expression n .sum)) i := by
  have hsim := simulation_marked tokens (Class.ofKind t.kind) p
  have hexpr : Keeps tokens (Class.ofKind t.kind) p (Grammar.expression n .sum) := keeps_expression n
  cases hs with
  | @assignment w t₁ t₂ id e hk hp hk' he =>
    refine Marks.orElse ?_ hexpr
    rcases u with _ | ⟨t₀, _ | ⟨t₃, u⟩⟩
    · -- no name stands where the statement begins
      obtain ⟨rfl, -⟩ := List.cons.inj hw
      obtain rfl : p = i := hu.1
      rw [hk] at hsim hexpr ⊢
      have hatom : Stuck tokens (Phrase .atom) [] p := h.of_frames (x := []) frames_atom_statement
      have hname := marks_leaf fun t ht hc => hatom.payload_eq_none ht ((Class.isValued_iff _).mpr (.inl hc))
      exact hname.bind fun _ _ => (simulates_symbol hsim _).bind fun _ _ _ =>
        Simulates.bind hexpr fun _ _ _ => simulates_create_marked _ _
    · -- no '=' stands behind the name
      obtain ⟨rfl, hw₁⟩ := List.cons.inj hw
      obtain ⟨rfl, -⟩ := List.cons.inj hw₁
      obtain rfl : p = i + 1 := hu.1
      rw [hk'] at hexpr ⊢
      refine Marks.matched_bind (fun _ => ⟨_, _, matches_leaf hu.head.1 (by rw [hk]; rfl) hp⟩) fun _ => ?_
      refine (marks_symbol fun t ht hc => ?_).bind fun _ _ =>
        Simulates.bind hexpr fun _ _ _ => simulates_create_marked _ _
      exact h.not_of_frames ht (frames_assignment hk hp (Class.eq_kind hc (by decide))) (phrase_name .expr)
    · obtain ⟨rfl, hw₁⟩ := List.cons.inj hw
      obtain ⟨rfl, hw₂⟩ := List.cons.inj hw₁
      obtain ⟨ht₁, hu'⟩ := hu.head
      obtain ⟨ht₂, hu'⟩ := hu'.head
      simp only [List.length_cons] at hn
      refine marks_assignment_of_value ht₁ hk hp ht₂ hk' ?_
      rw [expression_eq]
      exact he.marks hw₂ (by omega) hu' (h.of_frames (x := [t₁, t₂]) (frames_assignment hk hp hk'))
  | expression he =>
    subst hw
    refine Marks.or (h.misses_assignment he hu) ?_
    rw [expression_eq]
    exact he.marks rfl hn hu (h.of_frames (x := []) frames_expression)

/-- What stands where no statement goes on closes the one before. -/
theorem Stuck.closes (h : Stuck tokens IsStatement w p) (hs : DerivesStatement w s) : Closes tokens w p where
  noAdditive t ht := by
    refine Option.eq_none_iff_forall_ne_some.mpr fun o ho => ?_
    exact h.not_of_frames ht (frames_statement ⟨s, hs⟩ fun _ he => frames_additive he ho) (phrase_name .term)
  noMultiplicative := h.noMultiplicative fun t o ho =>
    frames_statement ⟨s, hs⟩ fun _ he => frames_multiplicative_expr he ho
  noAssign hw hk hp ht hk' := by
    subst hw
    exact h.not_of_frames ht (frames_assignment hk hp hk') (phrase_name .expr)

/-- What the repetition of statements marks behind some of them is marked. -/
theorem marks_statements_of_loop (hss : DerivesStatements x ss) (hn : x.length ≤ n) (hx : Reads tokens 0 x j)
    (hj : AtBreak tokens j)
    (h : ∀ items, Marks tokens c p (iterate (nextStatement (expression n .sum)) items) j) :
    Marks tokens c p (statements (expression n .sum)) 0 := fun run =>
  Meets.bind ((hss.complete hn hx hj run _ _ _ fun run' _ => h _ run').mono
    (fun _ _ _ hm => Meets.bind (hm.mono (fun _ _ _ hm => meets_pure hm) (fun _ => id) id)) (fun _ => id) id)

theorem marks_statements_of_statement (h : Marks tokens c p (statement (expression n .sum)) 0) :
    Marks tokens c p (statements (expression n .sum)) 0 :=
  h.bind fun _ _ => Simulates.bind ((keepsAll_nextStatement n).iterate _ _) fun _ _ _ => simulates_pure trivial

/-- A semicolon is missed behind statements that nothing goes on with. -/
theorem marks_semicolon (hss : DerivesStatements u ss) (hn : u.length ≤ n) (hu : Reads tokens 0 u p)
    (h : Stuck tokens IsStatements u p) : Marks tokens .semicolon p (statements (expression n .sum)) 0 := by
  have hloop : ∀ items, Marks tokens .semicolon p (iterate (nextStatement (expression n .sum)) items) p := by
    refine fun items => Marks.iterate (fun items => ?_) (keepsAll_nextStatement n) items
    refine (marks_symbol fun t ht hc => ?_).bind fun _ _ => ?_
    · have hname : IsStatement _ := frames_expression.apply (phrase_name .expr)
      exact h.not_of_frames ht (frames_more ⟨ss, hss⟩ (Class.eq_kind hc (by decide))) hname
    · exact (simulates_statement (simulation_marked tokens _ p) (keeps_expression n)).bind fun _ _ _ =>
        simulates_pure trivial
  cases hss with
  | single hs =>
    have hcloses := (h.of_frames (x := []) frames_single).closes hs
    exact Marks.matched_bind (fun run => ⟨_, _, matches_statement hs hn hu hcloses run⟩) fun x =>
      (hloop [x]).bind (keepsAll_pure _)
  | @more x y t ss s hss hk hs =>
    obtain ⟨hx, hrest⟩ := hu.split
    obtain ⟨ht, hy⟩ := hrest.head
    simp only [List.length_append, List.length_cons] at hn
    have hcloses := (h.right (frames_more ⟨ss, hss⟩ hk)).closes hs
    refine marks_statements_of_loop hss (by omega) hx (atBreak_of_semicolon ht hk) fun items run => ?_
    refine Meets.iterate_step ((matches_symbol ht (by rw [hk]; rfl)).bind fun run₁ _ => ?_)
    refine (matches_statement hs (by omega) hy hcloses run₁).bind fun run₂ _ => meets_pure ?_
    exact ⟨hy.le, hu.le_size (by simp), hloop _ run₂⟩

/-- Statements mark the class of a token that they go on with, where none go on with the one that is there. -/
theorem DerivesStatements.marks (hss : DerivesStatements w ss) :
    ∀ {u v : List Token} {t : Token}, w = u ++ t :: v → u.length ≤ n → Reads tokens 0 u p →
      Stuck tokens IsStatements u p →
      Marks tokens (Class.ofKind t.kind) p (statements (Grammar.expression n .sum)) 0 := by
  induction hss with
  | single hs =>
    intro u v t hw hn hu h
    exact marks_statements_of_statement (hs.marks hw hn hu (h.of_frames (x := []) frames_single))
  | @more x y t' ss s hss hk hs ih =>
    intro u v t hw hn hu h
    rcases append_cons_cases hw with ⟨v', rfl⟩ | ⟨rfl, rfl⟩ | ⟨u', rfl, rfl⟩
    · exact ih rfl hn hu h
    · rw [hk]
      exact marks_semicolon hss hn hu h
    · obtain ⟨hx, hrest⟩ := hu.split
      obtain ⟨ht', hu'⟩ := hrest.head
      simp only [List.length_append, List.length_cons] at hn
      have hitem := hs.marks (n := n) rfl (by omega) hu' (h.right (frames_more ⟨ss, hss⟩ hk))
      refine marks_statements_of_loop hss (by omega) hx (atBreak_of_semicolon ht' hk) fun items => ?_
      refine Marks.iterate (fun items => ?_) (keepsAll_nextStatement n) items
      exact Marks.matched_bind (fun _ => ⟨_, _, matches_symbol ht' (by rw [hk]; rfl)⟩) fun _ =>
        hitem.bind (keepsAll_pure _)

/-- A program marks the class of every token that it could go on with, where none goes on with the one that is there. -/
theorem DerivesProgram.marks (hss : DerivesProgram w ss) {v : List Token} {t : Token} (hw : w = u ++ t :: v)
    (hn : u.length ≤ n) (hu : Reads tokens 0 u p) (h : Stuck tokens IsProgram u p) :
    Marks tokens (Class.ofKind t.kind) p (program (Grammar.expression n .sum)) 0 := by
  have hsim := simulation_marked tokens (Class.ofKind t.kind) p
  have h : Stuck tokens IsStatements u p := h.of_frames (x := []) frames_plain
  have hstatements : Marks tokens (Class.ofKind t.kind) p (statements (Grammar.expression n .sum)) 0 := by
    cases hss with
    | plain hss => exact hss.marks hw hn hu h
    | closed hss hk =>
      rcases append_cons_cases hw with ⟨v', rfl⟩ | ⟨rfl, rfl⟩ | ⟨u', -, hnil⟩
      · exact hss.marks rfl hn hu h
      · rw [hk]
        exact marks_semicolon hss hn hu h
      · simp at hnil
  refine hstatements.bind fun _ _ => ((simulates_symbol hsim _).orElse (simulates_pure trivial)).bind fun _ _ _ => ?_
  exact (simulates_atEnd rfl).bind fun _ _ _ => keepsAll_rootOf _ _

end Statements

end Formula.Grammar
