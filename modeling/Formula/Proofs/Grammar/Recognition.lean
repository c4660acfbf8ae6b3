import Formula.Proofs.Grammar.Derivation
import Formula.Proofs.Grammar.Simulation

/-!
# What rules match is derivable

`Reads tokens i w j` says that the tokens from the position `i` up to `j` are `w`. A rule of the grammar that matches
has read tokens with a derivation (`recognizes_expression`, `recognizes_program`).

The one step that is not local is the operator of a product in a sum: `a + b * c` must not group as `(a + b) * c`. The
right operand `b` has taken all operators of a product that it could, so none of them is left for the sum. What is left
to try fails there whatever the run (`productStep_fails`), and `SumSoFar` keeps this for the next step.
-/

namespace Formula.Grammar

open Rule hiding pure bind

/-! ## Tokens between two positions -/

/-- The tokens from one position up to another. -/
def Reads (tokens : Array Token) (i : Nat) (w : List Token) (j : Nat) : Prop :=
  j = i + w.length ∧ tokens.toList.drop i = w ++ tokens.toList.drop j

section Reads

variable {tokens : Array Token} {i j k : Nat} {u v w : List Token} {t : Token}

theorem reads_all (tokens : Array Token) : Reads tokens 0 tokens.toList tokens.size := by
  refine ⟨by simp, ?_⟩
  simp

theorem reads_token (h : tokens[i]? = some t) : Reads tokens i [t] (i + 1) := by
  obtain ⟨hi, rfl⟩ := Array.getElem?_eq_some_iff.mp h
  refine ⟨rfl, ?_⟩
  rw [List.drop_eq_getElem_cons (by simpa using hi)]
  simp

theorem Reads.append (h : Reads tokens i u j) (h' : Reads tokens j v k) : Reads tokens i (u ++ v) k := by
  obtain ⟨rfl, hu⟩ := h
  obtain ⟨rfl, hv⟩ := h'
  refine ⟨by rw [List.length_append, Nat.add_assoc], ?_⟩
  rw [hu, hv, List.append_assoc]

theorem Reads.cons (h : tokens[i]? = some t) (h' : Reads tokens (i + 1) w j) : Reads tokens i (t :: w) j :=
  (reads_token h).append h'

/-- What is read in two parts has a position between them. -/
theorem Reads.split (h : Reads tokens i (u ++ v) k) :
    Reads tokens i u (i + u.length) ∧ Reads tokens (i + u.length) v k := by
  obtain ⟨rfl, h⟩ := h
  have hv : tokens.toList.drop (i + u.length) = v ++ tokens.toList.drop (i + (u ++ v).length) := by
    rw [← List.drop_drop, h, List.append_assoc, List.drop_left]
  refine ⟨⟨rfl, ?_⟩, ⟨by rw [List.length_append, Nat.add_assoc], hv⟩⟩
  rw [hv, h, List.append_assoc]

theorem Reads.head (h : Reads tokens i (t :: w) j) : tokens[i]? = some t ∧ Reads tokens (i + 1) w j := by
  have hs := Reads.split (u := [t]) (v := w) h
  refine ⟨?_, hs.2⟩
  have hd := congrArg List.head? hs.1.2
  simpa using hd

theorem Reads.le (h : Reads tokens i w j) : i ≤ j := by
  have := h.1
  omega

/-- What is read is there. -/
theorem Reads.le_size (h : Reads tokens i w j) (hw : w ≠ []) : j ≤ tokens.size := by
  have hl := congrArg List.length h.2
  have hp := List.length_pos_iff.mpr hw
  have hj := h.1
  simp only [List.length_drop, List.length_append, Array.length_toList] at hl
  omega

/-- Tokens read from the first to the last are all tokens. -/
theorem Reads.eq_toList (h : Reads tokens 0 w j) (hj : tokens.size ≤ j) : w = tokens.toList := by
  have hd : tokens.toList.drop j = [] := List.drop_eq_nil_of_le (by simpa using hj)
  have := h.2
  rw [hd, List.drop_zero, List.append_nil] at this
  exact this.symm

theorem lt_size_of_getElem? (h : tokens[i]? = some t) : i < tokens.size :=
  (Array.getElem?_eq_some_iff.mp h).1

end Reads

/-! ## Expressions -/

section Levels

variable {tokens : Array Token} {enter : Level → Rule NodeId}

/-- Whatever the rule matches is derived as the category. -/
def Recognizes (tokens : Array Token) (c : Category) (r : Rule NodeId) : Prop :=
  ∀ i run, Meets tokens r i run (fun _ j _ => ∃ w e, Reads tokens i w j ∧ Derives c w e) (fun _ => True) True

theorem recognizes_atom (h : Recognizes tokens .expr (enter .sum)) : Recognizes tokens .atom (atom enter) := by
  intro i run
  apply meets_atom
  · intro t id _ _ ht hv hp
    exact ⟨[t], .leaf id, reads_token ht, .leaf hv hp⟩
  · intro t run' _ ht hk
    refine (h (i + 1) run').mono ?_ (fun _ _ => trivial) id
    rintro x j run₁ ⟨w, e, hw, he⟩
    refine ⟨fun t' ht' hk' => ?_, trivial⟩
    exact ⟨t :: (w ++ [t']), .paren e, Reads.cons ht (hw.append (reads_token ht')), .paren hk he hk'⟩
  · exact fun _ _ => trivial

theorem recognizes_factor (h : Recognizes tokens .expr (enter .sum)) (h' : Recognizes tokens .factor (enter .factor)) :
    Recognizes tokens .factor (factor enter) := by
  intro i run
  have hatom : ∀ run, Meets tokens (atom enter) i run
      (fun _ j _ => ∃ w e, Reads tokens i w j ∧ Derives .factor w e) (fun _ => True) True := fun run =>
    (recognizes_atom h i run).mono (fun _ _ _ ⟨w, e, hw, he⟩ => ⟨w, e, hw, .ofAtom he⟩) (fun _ _ => trivial) id
  apply meets_factor
  · intro t ht hk
    refine (h' (i + 1) run).mono ?_ (fun run' _ => hatom run') id
    rintro x j run' ⟨w, e, hw, he⟩
    exact ⟨t :: w, .negation e, Reads.cons ht hw, .negation hk he⟩
  · exact fun run' _ => hatom run'

/-- An operator and its right operand, behind whatever stands to the left. -/
theorem recognizes_operation {cat : Category} {right : Rule NodeId} (h : Recognizes tokens cat right) (c : Class)
    (o : Operator) (left : NodeId) (i : Nat) (run : Run) :
    Meets tokens (operation c o right left) i run
      (fun _ j _ => ∃ t w e, tokens[i]? = some t ∧ Class.ofKind t.kind = c ∧ Reads tokens (i + 1) w j ∧
        Derives cat w e) (fun _ => True) True := by
  refine meets_operation (fun t ht hc => (h (i + 1) run).mono ?_ (fun _ _ => trivial) id) fun _ => trivial
  rintro x j run' ⟨w, e, hw, he⟩
  exact ⟨t, w, e, ht, hc, hw, he⟩

theorem recognizes_productStep (h : Recognizes tokens .factor (factor enter)) (left : NodeId) (i : Nat) (run : Run) :
    Meets tokens (productStep enter left) i run
      (fun _ j _ => ∃ t w e o, tokens[i]? = some t ∧ t.kind.multiplicative? = some o ∧ Reads tokens (i + 1) w j ∧
        Derives .factor w e) (fun _ => True) True := by
  refine Meets.orElse ((recognizes_operation h _ _ left i run).mono ?_ (fun run' _ => ?_) id)
  · rintro x j run' ⟨t, w, e, ht, hc, hw, he⟩
    exact ⟨t, w, e, .mul, ht, Kind.multiplicative?_eq_some.mpr (.inl ⟨hc, rfl⟩), hw, he⟩
  · refine (recognizes_operation h _ _ left i run').mono ?_ (fun _ _ => trivial) id
    rintro x j run' ⟨t, w, e, ht, hc, hw, he⟩
    exact ⟨t, w, e, .div, ht, Kind.multiplicative?_eq_some.mpr (.inr ⟨hc, rfl⟩), hw, he⟩

/-- An operator of a product behind a term makes it a longer one. -/
theorem recognizes_productStep_of_term (h : Recognizes tokens .factor (factor enter)) (left : NodeId) {i j : Nat}
    {u : List Token} {l : Tree} (hu : Reads tokens i u j) (hl : Derives .term u l) (run : Run) :
    Meets tokens (productStep enter left) j run
      (fun _ k _ => j < k ∧ k ≤ tokens.size ∧ ∃ w e, Reads tokens i w k ∧ Derives .term w e)
      (fun _ => True) True := by
  refine (recognizes_productStep h left j run).mono ?_ (fun _ _ => trivial) id
  rintro y k run' ⟨t, v, r, o, ht, ho, hv, hr⟩
  have hread : Reads tokens i (u ++ t :: v) k := hu.append (Reads.cons ht hv)
  exact ⟨hv.le, hread.le_size (by simp), u ++ t :: v, .binary o l r, hread, .multiplicative hl ho hr⟩

/-- A product is a term, and no operator of a product is left behind it. -/
theorem recognizes_product (hb : Blind tokens enter) (h : Recognizes tokens .factor (factor enter)) (i : Nat)
    (run : Run) :
    Meets tokens (product enter) i run
      (fun _ j _ => (∃ w e, Reads tokens i w j ∧ Derives .term w e) ∧ ∀ left, Fails tokens (productStep enter left) j)
      (fun _ => True) True := by
  refine Meets.bind ((h i run).mono ?_ (fun _ _ => trivial) id)
  rintro x j run' ⟨w, e, hw, he⟩
  refine Meets.iterate (fun _ j _ => ∃ w e, Reads tokens i w j ∧ Derives .term w e) ?_ ⟨w, e, hw, .ofFactor he⟩
  rintro x j run' ⟨u, l, hu, hl⟩
  refine Meets.remember ((recognizes_productStep_of_term h x hu hl run').mono (fun _ _ _ hk _ => hk) ?_ id)
  exact fun run'' _ hfail => ⟨⟨u, l, hu, hl⟩, productStep_fails hb hfail⟩

/-- What a sum has read so far. An expression that is not a term has a product as its last operand, which has left no
operator of a product behind. -/
def SumSoFar (tokens : Array Token) (enter : Level → Rule NodeId) (i j : Nat) : Prop :=
  ∃ w e, Reads tokens i w j ∧
    (Derives .term w e ∨ Derives .expr w e ∧ ∀ left, Fails tokens (productStep enter left) j)

theorem recognizes_sumOperation (hb : Blind tokens enter) (h : Recognizes tokens .factor (factor enter)) {c : Class}
    {o : Operator} (hco : ∀ t : Token, Class.ofKind t.kind = c → t.kind.additive? = some o) (left : NodeId) {i j : Nat}
    (hs : SumSoFar tokens enter i j) (run : Run) :
    Meets tokens (operation c o (product enter) left) j run
      (fun _ k _ => j < k ∧ k ≤ tokens.size ∧ SumSoFar tokens enter i k) (fun _ => True) True := by
  obtain ⟨u, l, hu, hl⟩ := hs
  have hl : Derives .expr u l := hl.elim .ofTerm And.left
  refine meets_operation (fun t ht hc => ?_) fun _ => trivial
  refine (recognizes_product hb h (j + 1) run).mono ?_ (fun _ _ => trivial) id
  rintro y k run'' ⟨⟨v, r, hv, hr⟩, hfails⟩
  have hread : Reads tokens i (u ++ t :: v) k := hu.append (Reads.cons ht hv)
  refine ⟨hv.le, hread.le_size (by simp), u ++ t :: v, .binary o l r, hread, ?_⟩
  exact .inr ⟨.additive hl (hco t hc) hr, hfails⟩

theorem recognizes_sumStep (hb : Blind tokens enter) (h : Recognizes tokens .factor (factor enter)) (left : NodeId)
    {i j : Nat} (hs : SumSoFar tokens enter i j) (run : Run) :
    Meets tokens (sumStep enter left) j run
      (fun _ k _ => j < k ∧ k ≤ tokens.size ∧ SumSoFar tokens enter i k) (fun _ => True) True := by
  have hplus : ∀ t : Token, Class.ofKind t.kind = .plus → t.kind.additive? = some .add :=
    fun t hc => Kind.additive?_eq_some.mpr (.inl ⟨hc, rfl⟩)
  have hminus : ∀ t : Token, Class.ofKind t.kind = .minus → t.kind.additive? = some .sub :=
    fun t hc => Kind.additive?_eq_some.mpr (.inr ⟨hc, rfl⟩)
  refine Meets.orElse ((recognizes_sumOperation hb h hplus left hs run).mono (fun _ _ _ => id) (fun run₁ _ => ?_) id)
  refine Meets.orElse ((recognizes_sumOperation hb h hminus left hs run₁).mono (fun _ _ _ => id) (fun run₂ _ => ?_) id)
  refine Meets.remember ((recognizes_productStep h left j run₂).mono ?_ (fun _ _ _ => trivial) id)
  rintro y k run'' ⟨t, v, r, o, ht, ho, hv, hr⟩ hmatched
  obtain ⟨u, l, hu, hl⟩ := hs
  have hread : Reads tokens i (u ++ t :: v) k := hu.append (Reads.cons ht hv)
  rcases hl with hl | ⟨-, hfails⟩
  · exact ⟨hv.le, hread.le_size (by simp), u ++ t :: v, .binary o l r, hread, .inl (.multiplicative hl ho hr)⟩
  · -- the operators of a product have failed here before
    have := hfails left run₂
    rw [hmatched] at this
    cases this

theorem recognizes_sum (hb : Blind tokens enter) (h : Recognizes tokens .factor (factor enter)) :
    Recognizes tokens .expr (sum enter) := by
  intro i run
  refine Meets.bind ((h i run).mono ?_ (fun _ _ => trivial) id)
  rintro x j run' ⟨w, e, hw, he⟩
  refine Meets.iterate (fun _ j _ => SumSoFar tokens enter i j) ?_ ⟨w, e, hw, .inl (.ofFactor he)⟩
  intro x j run' hs
  refine (recognizes_sumStep hb h x hs run').mono (fun _ _ _ hq => hq) (fun _ _ => ?_) id
  obtain ⟨w, e, hw, he⟩ := hs
  exact ⟨w, e, hw, he.elim .ofTerm And.left⟩

end Levels

/-- Sums and factors are derivable, however deep they may nest. -/
theorem recognizes_expression (tokens : Array Token) (n : Nat) :
    Recognizes tokens .expr (expression n .sum) ∧ Recognizes tokens .factor (expression n .factor) := by
  have hlevel : ∀ n, Recognizes tokens .factor (factor (inner n)) →
      Recognizes tokens .expr (expression n .sum) ∧ Recognizes tokens .factor (expression n .factor) := by
    intro n h
    rw [expression_eq, expression_eq]
    exact ⟨recognizes_sum (inner_blind tokens n) h, h⟩
  induction n with
  | zero =>
    have hexhausted : ∀ c, Recognizes tokens c Rule.exhausted := fun _ _ _ => meets_exhausted trivial
    exact hlevel 0 (recognizes_factor (hexhausted _) (hexhausted _))
  | succ n ih => exact hlevel (n + 1) (recognizes_factor ih.1 ih.2)

/-! ## Statements -/

section Statements

variable {tokens : Array Token} {expr : Rule NodeId} (hexpr : Recognizes tokens .expr expr)
include hexpr

theorem recognizes_statement (i : Nat) (run : Run) :
    Meets tokens (statement expr) i run (fun _ j _ => ∃ w s, Reads tokens i w j ∧ DerivesStatement w s)
      (fun _ => True) True := by
  have hexpression : ∀ run, Meets tokens expr i run
      (fun _ j _ => ∃ w s, Reads tokens i w j ∧ DerivesStatement w s) (fun _ => True) True := fun run =>
    (hexpr i run).mono (fun _ _ _ ⟨w, e, hw, he⟩ => ⟨w, .expression e, hw, .expression he⟩) (fun _ _ => trivial) id
  apply meets_statement
  · intro t target t' ht hk hp ht' hk'
    refine (hexpr (i + 1 + 1) run).mono ?_ (fun run' _ => hexpression run') id
    rintro x j run' ⟨w, e, hw, he⟩
    exact ⟨t :: t' :: w, .assignment target e, Reads.cons ht (Reads.cons ht' hw), .assignment hk hp hk' he⟩
  · exact fun run' _ => hexpression run'

/-- One more statement behind a semicolon. -/
theorem recognizes_nextStatement (items : List NodeId) {i j : Nat} {u : List Token} {ss : List Statement}
    (hu : Reads tokens i u j) (hss : DerivesStatements u ss) (run : Run) :
    Meets tokens (nextStatement expr items) j run
      (fun _ k _ => j < k ∧ k ≤ tokens.size ∧ ∃ w ss, Reads tokens i w k ∧ DerivesStatements w ss)
      (fun _ => True) True := by
  refine Meets.bind (meets_symbol (fun t ht hc => ?_) fun _ => trivial)
  refine Meets.bind ((recognizes_statement hexpr (j + 1) run).mono ?_ (fun _ _ => trivial) id)
  rintro x k run' ⟨v, s, hv, hs⟩
  have hread : Reads tokens i (u ++ t :: v) k := hu.append (Reads.cons ht hv)
  have hderives : DerivesStatements (u ++ t :: v) (ss ++ [s]) := .more hss (Class.eq_kind hc (by decide)) hs
  exact meets_pure ⟨hv.le, hread.le_size (by simp), _, _, hread, hderives⟩

theorem recognizes_statements (i : Nat) (run : Run) :
    Meets tokens (statements expr) i run (fun _ j _ => ∃ w ss, Reads tokens i w j ∧ DerivesStatements w ss)
      (fun _ => True) True := by
  refine Meets.bind ((recognizes_statement hexpr i run).mono ?_ (fun _ _ => trivial) id)
  rintro x j run' ⟨w, s, hw, hs⟩
  refine Meets.bind (Meets.iterate (fun _ j _ => ∃ w ss, Reads tokens i w j ∧ DerivesStatements w ss) ?_
    ⟨w, [s], hw, .single hs⟩)
  rintro items j run' ⟨u, ss, hu, hss⟩
  exact (recognizes_nextStatement hexpr items hu hss run').mono (fun _ _ _ => id)
    (fun _ _ => meets_pure ⟨u, ss, hu, hss⟩) id

/-- Tokens that match as a program are a program. -/
theorem recognizes_program (run : Run) :
    Meets tokens (program expr) 0 run (fun _ _ _ => ∃ ss, DerivesProgram tokens.toList ss) (fun _ => True) True := by
  apply meets_program
  refine (recognizes_statements hexpr 0 run).mono ?_ (fun _ _ => trivial) id
  rintro items j run' ⟨w, ss, hw, hss⟩ k run₁ - hk
  have hall : tokens.size ≤ k → ∃ ss, DerivesProgram tokens.toList ss := by
    intro hle
    rcases hk with rfl | ⟨rfl, t, ht, hk⟩
    · exact ⟨ss, hw.eq_toList hle ▸ .plain hss⟩
    · exact ⟨ss, (hw.append (reads_token ht)).eq_toList hle ▸ .closed hss hk⟩
  exact ⟨fun _ => trivial, fun hle => ⟨fun _ _ => hall hle, fun _ => hall hle⟩⟩

end Statements

end Formula.Grammar
