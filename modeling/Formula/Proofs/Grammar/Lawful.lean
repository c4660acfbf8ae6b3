import Formula.Proofs.Grammar.Prefix

/-!
# Where rules leave marks

A rule that is run where its phrases may stand looks for a class in vain only where that class would make a viable
prefix, in alternatives that are given up as well. So every property of probes that is kept by such marks holds in the
end if it holds at the start (`lawful_program`).
-/

namespace Formula.Grammar

open Rule hiding pure bind

section Operators

variable {α β : Type} (tokens : Array Token) (P : Probe → Prop)

/-- The rule keeps the property of probes. -/
def Lawful (r : Rule α) (i : Nat) : Prop :=
  ∀ run, P run.probe → Meets tokens r i run (fun _ _ run' => P run'.probe) (fun run' => P run'.probe) True

variable {tokens P} {r r' : Rule α} {i : Nat}

theorem lawful_pure (a : α) : Lawful tokens P (pure a : Rule α) i := fun _ h => meets_pure h

theorem lawful_create (node : Node) : Lawful tokens P (create node) i := fun _ h => meets_create h

theorem lawful_exhausted : Lawful tokens P (Rule.exhausted : Rule α) i := fun _ _ => meets_exhausted trivial

theorem Lawful.bind {f : α → Rule β} (h : Lawful tokens P r i)
    (hf : ∀ run, Meets tokens r i run (fun a j _ => Lawful tokens P (f a) j) (fun _ => True) True) :
    Lawful tokens P (r >>= f) i := fun run hrun =>
  Meets.bind (((h run hrun).and (hf run)).mono (fun _ _ run' hq => hq.2 run' hq.1) (fun _ hq => hq.1) fun _ => trivial)

theorem Lawful.bind_of_forall {f : α → Rule β} (h : Lawful tokens P r i) (hf : ∀ a j, Lawful tokens P (f a) j) :
    Lawful tokens P (r >>= f) i := fun run hrun =>
  Meets.bind ((h run hrun).mono (fun a j run' => hf a j run') (fun _ => id) id)

theorem Lawful.orElse (h : Lawful tokens P r i) (h' : Lawful tokens P r' i) : Lawful tokens P (r <|> r') i :=
  fun run hrun => Meets.orElse ((h run hrun).mono (fun _ _ _ hq => hq) h' id)

theorem Lawful.iterate {step : α → Rule α} (I : α → Nat → Prop) (hlaw : ∀ a j, I a j → Lawful tokens P (step a) j)
    (hstep : ∀ a j run, I a j → Meets tokens (step a) j run (fun b k _ => j < k ∧ k ≤ tokens.size ∧ I b k)
      (fun _ => True) True) {a : α} (h : I a i) : Lawful tokens P (iterate step a) i := fun run hrun => by
  refine Meets.iterate (fun a j run => I a j ∧ P run.probe) (fun a j run ⟨hI, hp⟩ => ?_) ⟨h, hrun⟩
  refine ((hlaw a j hI run hp).and (hstep a j run hI)).mono ?_ (fun _ hq => hq.1) fun _ => trivial
  exact fun _ _ _ ⟨hp, hjk, hk, hI⟩ => ⟨hjk, hk, hI, hp⟩

end Operators

section Grammar

variable {tokens : Array Token} {P : Probe → Prop} {i : Nat}
variable (hP : ∀ c i probe, Expects tokens c i → P probe → P (probe.mark c i))
include hP

theorem lawful_token {α : Type} {c : Class} {value? : Token → Option α} (h : Expects tokens c i) :
    Lawful tokens P (token c value?) i := fun run hrun =>
  meets_token (fun _ _ _ _ => hrun) fun _ => hP c i run.probe h hrun

/-- An operator is lawful behind tokens that a right operand may follow, with a lawful rule for that. -/
theorem lawful_operation {Q : List Token → Prop} {u : List Token} {j : Nat} {c : Class} {o : Operator} {cat : Category}
    {right : Rule NodeId} (h : Opens tokens Q i) (hu : Reads tokens i u j)
    (hframes : ∀ t : Token, Class.ofKind t.kind = c → Frames (u ++ [t]) [] (Phrase cat) Q)
    (hright : ∀ {i}, Opens tokens (Phrase cat) i → Lawful tokens P right i) (left : NodeId) :
    Lawful tokens P (operation c o right left) j := by
  have hsymbol : Expects tokens c j := h.expects_of_frames hu (hframes c.sample c.ofKind_sample) (phrase_name cat)
  refine (lawful_token hP hsymbol).bind fun run => meets_symbol (fun t ht hc => ?_) fun _ => trivial
  exact (hright (h.of_frames (hu.append (reads_token ht)) (hframes t hc))).bind_of_forall fun _ _ => lawful_create _

section Levels

variable {enter : Level → Rule NodeId}

theorem lawful_atom (h : Opens tokens (Phrase .atom) i) (hrec : Recognizes tokens .expr (enter .sum))
    (henter : Opens tokens (Phrase .expr) (i + 1) → Lawful tokens P (enter .sum) (i + 1)) :
    Lawful tokens P (atom enter) i := by
  have hname : Expects tokens .identifier i := h.expects_head (phrase_name .atom)
  have hliteral : Expects tokens .literal i := h.expects_head (y := []) ⟨_, .leaf rfl rfl⟩
  have hopen : Expects tokens .leftParen i := h.expects_head
    ((frames_paren (t := Class.leftParen.sample) (s := Class.rightParen.sample) rfl rfl).apply (phrase_name .expr))
  refine (lawful_token hP hname).orElse ((lawful_token hP hliteral).orElse ?_)
  refine (lawful_token hP hopen).bind fun run => meets_symbol (fun t ht hc => ?_) fun _ => trivial
  have ht' : t.kind = .leftParen := Class.eq_kind hc (by decide)
  have hinner := h.of_frames (reads_token ht) (frames_paren (s := Class.rightParen.sample) ht' rfl)
  refine (henter hinner).bind fun run => (hrec (i + 1) run).mono ?_ (fun _ _ => trivial) id
  rintro x j run' ⟨w, e, hw, he⟩
  have hclose : Expects tokens .rightParen j := h.expects (Reads.cons ht hw) (y := [])
    ((frames_paren ht' rfl).apply ⟨e, he⟩)
  exact (lawful_token hP hclose).bind_of_forall fun _ _ => lawful_create _

theorem lawful_factor (h : Opens tokens (Phrase .factor) i) (hrec : Recognizes tokens .expr (enter .sum))
    (henter : ∀ {i}, Opens tokens (Phrase .expr) i → Lawful tokens P (enter .sum) i)
    (henter' : ∀ {i}, Opens tokens (Phrase .factor) i → Lawful tokens P (enter .factor) i) :
    Lawful tokens P (factor enter) i := by
  have hminus : Expects tokens .minus i := h.expects_head
    ((frames_negation (t := Class.minus.sample) rfl).apply (phrase_name .factor))
  refine Lawful.orElse ?_ (lawful_atom hP (h.of_frames (reads_nil _ _) frames_atom_factor) hrec henter)
  refine (lawful_token hP hminus).bind fun run => meets_symbol (fun t ht hc => ?_) fun _ => trivial
  have hoperand := h.of_frames (reads_token ht) (frames_negation (Class.eq_kind hc (by decide)))
  exact (henter' hoperand).bind_of_forall fun _ _ => lawful_create _

section Operators

variable {Q : List Token → Prop} {u : List Token} {j : Nat} {left : NodeId}
variable (hfactor : ∀ {i}, Opens tokens (Phrase .factor) i → Lawful tokens P (factor enter) i)
include hfactor

/-- The operators of a product are lawful behind tokens that they go on with. -/
theorem lawful_productStep (h : Opens tokens Q i) (hu : Reads tokens i u j)
    (hframes : ∀ (t : Token) o, t.kind.multiplicative? = some o → Frames (u ++ [t]) [] (Phrase .factor) Q) :
    Lawful tokens P (productStep enter left) j :=
  (lawful_operation hP h hu (fun t hc => hframes t .mul (Kind.multiplicative?_eq_some.mpr (.inl ⟨hc, rfl⟩)))
    hfactor left).orElse
  (lawful_operation hP h hu (fun t hc => hframes t .div (Kind.multiplicative?_eq_some.mpr (.inr ⟨hc, rfl⟩)))
    hfactor left)

variable (hrec : Recognizes tokens .factor (factor enter))
include hrec

theorem lawful_product (h : Opens tokens (Phrase .term) i) : Lawful tokens P (product enter) i := by
  refine (hfactor (h.of_frames (reads_nil _ _) frames_factor_term)).bind fun run => (hrec i run).mono ?_
    (fun _ _ => trivial) id
  rintro x j - ⟨w, e, hw, he⟩
  refine Lawful.iterate (fun _ j => ∃ w e, Reads tokens i w j ∧ Derives .term w e) ?_ ?_ ⟨w, e, hw, .ofFactor he⟩
  · rintro x j ⟨w, e, hw, he⟩
    exact lawful_productStep hP hfactor h hw fun t o ho => frames_multiplicative ⟨e, he⟩ ho
  · rintro x j run ⟨u, l, hu, hl⟩
    exact recognizes_productStep_of_term hrec x hu hl run

theorem lawful_sum (hb : Blind tokens enter) (h : Opens tokens (Phrase .expr) i) : Lawful tokens P (sum enter) i := by
  have hterm := h.of_frames (reads_nil _ _) frames_term_expr
  refine (hfactor (hterm.of_frames (reads_nil _ _) frames_factor_term)).bind fun run => (hrec i run).mono ?_
    (fun _ _ => trivial) id
  rintro x j - ⟨w, e, hw, he⟩
  refine Lawful.iterate (fun _ j => SumSoFar tokens enter i j) ?_ ?_ ⟨w, e, hw, .inl (.ofFactor he)⟩
  · rintro x j ⟨w, e, hw, he⟩
    have he : Phrase .expr w := ⟨e, he.elim .ofTerm And.left⟩
    have hplus : ∀ t : Token, Class.ofKind t.kind = .plus → Frames (w ++ [t]) [] (Phrase .term) (Phrase .expr) :=
      fun t hc => frames_additive he (Kind.additive?_eq_some.mpr (.inl ⟨hc, rfl⟩))
    have hminus : ∀ t : Token, Class.ofKind t.kind = .minus → Frames (w ++ [t]) [] (Phrase .term) (Phrase .expr) :=
      fun t hc => frames_additive he (Kind.additive?_eq_some.mpr (.inr ⟨hc, rfl⟩))
    refine (lawful_operation hP h hw hplus (lawful_product hP hfactor hrec) x).orElse ?_
    refine (lawful_operation hP h hw hminus (lawful_product hP hfactor hrec) x).orElse ?_
    exact lawful_productStep hP hfactor h hw fun t o ho => frames_multiplicative_expr he ho
  · exact fun x j run hs => recognizes_sumStep hb hrec x hs run

end Operators

end Levels

/-- Expressions and factors are lawful where they may stand, however deep they may nest. -/
theorem lawful_expression (n : Nat) :
    (∀ {i}, Opens tokens (Phrase .expr) i → Lawful tokens P (expression n .sum) i) ∧
      ∀ {i}, Opens tokens (Phrase .factor) i → Lawful tokens P (expression n .factor) i := by
  have hlevel : ∀ n, (∀ {i}, Opens tokens (Phrase .factor) i → Lawful tokens P (factor (inner n)) i) →
      (∀ {i}, Opens tokens (Phrase .expr) i → Lawful tokens P (expression n .sum) i) ∧
        ∀ {i}, Opens tokens (Phrase .factor) i → Lawful tokens P (expression n .factor) i := by
    intro n h
    have hrec := (recognizes_expression tokens n).2
    simp only [expression_eq] at hrec ⊢
    exact ⟨lawful_sum hP h hrec (inner_blind tokens n), h⟩
  induction n with
  | zero =>
    exact hlevel 0 fun h => lawful_factor hP h (fun _ _ => meets_exhausted trivial) (fun _ => lawful_exhausted)
      fun _ => lawful_exhausted
  | succ n ih =>
    exact hlevel (n + 1) fun h => lawful_factor hP h (recognizes_expression tokens n).1 ih.1 ih.2

section Statements

variable {expr : Rule NodeId} (hrec : Recognizes tokens .expr expr)
variable (hexpr : ∀ {i}, Opens tokens (Phrase .expr) i → Lawful tokens P expr i)
include hexpr

theorem lawful_statement (h : Opens tokens IsStatement i) : Lawful tokens P (statement expr) i := by
  have hname : Expects tokens .identifier i :=
    h.expects_head (frames_expression.apply (phrase_name .expr))
  refine Lawful.orElse ?_ (hexpr (h.of_frames (reads_nil _ _) frames_expression))
  refine (lawful_token hP hname).bind fun run => meets_leaf (fun t id ht hc hp => ?_) fun _ => trivial
  have hassign : Expects tokens .assign (i + 1) := h.expects (reads_token ht)
    ((frames_assignment (s := Class.assign.sample) (Class.eq_kind hc (by decide)) hp rfl).apply (phrase_name .expr))
  refine (lawful_token hP hassign).bind fun run => meets_symbol (fun t' ht' hc' => ?_) fun _ => trivial
  have hvalue := h.of_frames (Reads.cons ht (reads_token ht'))
    (frames_assignment (Class.eq_kind hc (by decide)) hp (Class.eq_kind hc' (by decide)))
  exact (hexpr hvalue).bind_of_forall fun _ _ => lawful_create _

include hrec

theorem lawful_statements (h : Opens tokens IsStatements i) : Lawful tokens P (statements expr) i := by
  refine (lawful_statement hP hexpr (h.of_frames (reads_nil _ _) frames_single)).bind fun run =>
    (recognizes_statement hrec i run).mono ?_ (fun _ _ => trivial) id
  rintro x j - ⟨w, s, hw, hs⟩
  refine Lawful.bind_of_forall ?_ fun _ _ => lawful_pure _
  refine Lawful.iterate (fun _ j => ∃ w ss, Reads tokens i w j ∧ DerivesStatements w ss) ?_ ?_ ⟨w, [s], hw, .single hs⟩
  · rintro items j ⟨u, ss, hu, hss⟩
    have hsemicolon : Expects tokens .semicolon j :=
      h.expects_of_frames hu (frames_more ⟨ss, hss⟩ rfl) (frames_expression.apply (phrase_name .expr))
    refine (lawful_token hP hsemicolon).bind fun run => meets_symbol (fun t ht hc => ?_) fun _ => trivial
    have hitem := h.of_frames (hu.append (reads_token ht)) (frames_more ⟨ss, hss⟩ (Class.eq_kind hc (by decide)))
    exact (lawful_statement hP hexpr hitem).bind_of_forall fun _ _ => lawful_pure _
  · rintro items j run' ⟨u, ss, hu, hss⟩
    exact recognizes_nextStatement hrec items hu hss run'

/-- The optional semicolon is looked for where one more statement could begin with it; the end leaves no mark. -/
theorem lawful_program : Lawful tokens P (program expr) 0 := by
  have h : Opens tokens IsStatements 0 := ⟨Nat.zero_le _, fun hw => ⟨[], by simpa using frames_plain.apply hw⟩⟩
  refine (lawful_statements hP hrec hexpr h).bind fun run => (recognizes_statements hrec 0 run).mono ?_
    (fun _ _ => trivial) id
  rintro items j - ⟨w, ss, hw, hss⟩
  have hsemicolon : Expects tokens .semicolon j :=
    h.expects_of_frames hw (frames_more ⟨ss, hss⟩ rfl) (frames_expression.apply (phrase_name .expr))
  refine ((lawful_token hP hsemicolon).orElse (lawful_pure ())).bind_of_forall fun _ k => ?_
  have hend : Lawful tokens P atEnd k := fun _ hrun => meets_atEnd (fun _ => hrun) fun _ => hrun
  refine hend.bind_of_forall fun _ k => ?_
  exact fun _ hrun => meets_rootOf (fun _ _ => hrun) fun _ => hrun

end Statements

end Grammar

end Formula.Grammar
