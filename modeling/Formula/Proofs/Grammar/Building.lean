import Formula.Proofs.Grammar.Construction
import Formula.Proofs.Grammar.Recognition

/-!
# What an operand or an operator is made into

Where the tokens behind a position are known, a rule is sure to match there or sure to fail. `Matches` says with which
value and which arena it matches, `Misses` that it fails and makes no node, and `Builds` that what it makes is the tree
of what it reads, whatever has been made before.

A repetition is greedy, so a rule reads no further than a derivation only if no operator follows that could be read as
well. The left operand of an operator is always followed by one, though. What is said of it is therefore only that the
repetition comes by with its tree as the value so far (`LoopsTo`), which is what the induction on derivations needs.
-/

namespace Formula.Grammar

open Rule hiding pure bind

/-! ## Rules that are sure to match, and rules that are sure to fail -/

section Operators

variable {α β : Type} (tokens : Array Token)

/-- The rule matches, with the value, up to the position, and leaves the arena. -/
def Matches (r : Rule α) (i : Nat) (run : Run) (x : α) (j : Nat) (a : Arena) : Prop :=
  Meets tokens r i run (fun y k run' => y = x ∧ k = j ∧ run'.arena = a) (fun _ => False) False

/-- The rule fails and makes no node. -/
def Misses (r : Rule α) (i : Nat) (run : Run) : Prop :=
  Meets tokens r i run (fun _ _ _ => False) (fun run' => run'.arena = run.arena) False

variable {tokens} {r r' : Rule α} {i j : Nat} {run : Run} {x : α} {a : Arena} {t : Token} {c : Class}
variable {Q : α → Nat → Run → Prop} {F : Run → Prop} {E : Prop}

theorem Matches.meets (h : Matches tokens r i run x j a) (hQ : ∀ run', run'.arena = a → Q x j run') :
    Meets tokens r i run Q F E :=
  Meets.mono h (fun _ _ run' ⟨hx, hj, ha⟩ => hx ▸ hj ▸ hQ run' ha) (fun _ => False.elim) False.elim

theorem Matches.bind {f : α → Rule β} {Q : β → Nat → Run → Prop} (h : Matches tokens r i run x j a)
    (hf : ∀ run', run'.arena = a → Meets tokens (f x) j run' Q F E) : Meets tokens (r >>= f) i run Q F E :=
  Meets.bind (h.meets hf)

theorem Matches.orElse (h : Matches tokens r i run x j a) : Matches tokens (r <|> r') i run x j a :=
  Meets.orElse (Meets.mono h (fun _ _ _ hq => hq) (fun _ => False.elim) id)

theorem Misses.bind {f : α → Rule β} (h : Misses tokens r i run) : Misses tokens (r >>= f) i run :=
  Meets.bind (Meets.mono h (fun _ _ _ => False.elim) (fun _ ha => ha) id)

theorem Misses.orElse (h : Misses tokens r i run) (h' : ∀ run', run'.arena = run.arena → Meets tokens r' i run' Q F E) :
    Meets tokens (r <|> r') i run Q F E :=
  Meets.orElse (Meets.mono h (fun _ _ _ => False.elim) h' False.elim)

/-- An alternative behind one that is sure to fail there changes nothing but the marks. -/
theorem Meets.orElse_misses (h : Meets tokens r i run Q F E) (h' : ∀ run', Misses tokens r' i run')
    (hF : ∀ run' run'', F run' → run''.arena = run'.arena → F run'') : Meets tokens (r <|> r') i run Q F E :=
  Meets.orElse (Meets.mono h (fun _ _ _ hq => hq)
    (fun run' hf => Meets.mono (h' run') (fun _ _ _ => False.elim) (fun run'' => hF run' run'' hf) False.elim) id)

theorem Misses.or (h : Misses tokens r i run) (h' : ∀ run', Misses tokens r' i run') :
    Misses tokens (r <|> r') i run :=
  Meets.orElse_misses h h' fun _ _ ha ha' => ha'.trans ha

/-- A token of another class than the one looked for. -/
theorem class_ne_of_getElem? {c' : Class} (ht : tokens[i]? = some t) (hc : Class.ofKind t.kind = c') (h : c' ≠ c) :
    ∀ t', tokens[i]? = some t' → Class.ofKind t'.kind ≠ c := by
  intro t' ht'
  cases Option.some.inj (ht.symm.trans ht')
  rw [hc]
  exact h

theorem matches_symbol (ht : tokens[i]? = some t) (hc : Class.ofKind t.kind = c) :
    Matches tokens (symbol c) i run () (i + 1) run.arena :=
  meets_symbol (fun _ _ _ => ⟨rfl, rfl, rfl⟩) fun h => absurd hc (h t ht)

theorem misses_symbol (h : ∀ t, tokens[i]? = some t → Class.ofKind t.kind ≠ c) : Misses tokens (symbol c) i run :=
  meets_symbol (fun t ht hc => absurd hc (h t ht)) fun _ => rfl

theorem matches_leaf {id : NodeId} (ht : tokens[i]? = some t) (hc : Class.ofKind t.kind = c)
    (hp : t.payload = some id) : Matches tokens (leaf c) i run id (i + 1) run.arena := by
  refine meets_leaf (fun t' id' ht' _ hp' => ?_) fun h => ?_
  · cases Option.some.inj (ht.symm.trans ht')
    cases Option.some.inj (hp.symm.trans hp')
    exact ⟨rfl, rfl, rfl⟩
  · have := h t ht hc
    rw [hp] at this
    cases this

theorem misses_leaf_of_payload
    (h : ∀ t, tokens[i]? = some t → Class.ofKind t.kind = c → t.payload = none) : Misses tokens (leaf c) i run := by
  refine meets_leaf (fun t _ ht hc hp => ?_) fun _ => rfl
  rw [h t ht hc] at hp
  cases hp

theorem misses_leaf (h : ∀ t, tokens[i]? = some t → Class.ofKind t.kind ≠ c) : Misses tokens (leaf c) i run :=
  misses_leaf_of_payload fun t ht hc => absurd hc (h t ht)

theorem matches_create (node : Node) :
    Matches tokens (create node) i run run.arena.nextId i (run.arena.push node) :=
  meets_create ⟨rfl, rfl, rfl⟩

end Operators

/-! ## Rules that build trees -/

/-- The rule reads the tokens between the positions and builds the tree. -/
def Builds (tokens : Array Token) (r : Rule NodeId) (i : Nat) (e : Tree) (j : Nat) : Prop :=
  ∀ run, Matches tokens r i run (e.build run.arena).1 j (e.build run.arena).2

/-- The rule comes by with the tree in its repetition of the step. -/
def LoopsTo (tokens : Array Token) (r : Rule NodeId) (step : NodeId → Rule NodeId) (i : Nat) (e : Tree) (j : Nat) :
    Prop :=
  ∀ run Q F E, (∀ run', run'.arena = (e.build run.arena).2 →
    Meets tokens (iterate step (e.build run.arena).1) j run' Q F E) → Meets tokens r i run Q F E

/-- No operator of a product stands at the position. -/
def NoMultiplicative (tokens : Array Token) (j : Nat) : Prop :=
  ∀ t, tokens[j]? = some t → t.kind.multiplicative? = none

/-- No operator of a sum stands at the position. -/
def NoAdditive (tokens : Array Token) (j : Nat) : Prop :=
  ∀ t, tokens[j]? = some t → t.kind.additive? = none

section Levels

variable {tokens : Array Token} {enter : Level → Rule NodeId} {step : NodeId → Rule NodeId} {r right : Rule NodeId}
variable {i j m : Nat} {t : Token} {c : Class} {o : Operator} {e f : Tree} {left : NodeId} {run : Run}

theorem noMultiplicative_of_getElem? (ht : tokens[j]? = some t) (h : t.kind.multiplicative? = none) :
    NoMultiplicative tokens j := by
  intro t' ht'
  cases Option.some.inj (ht.symm.trans ht')
  exact h

theorem noAdditive_of_getElem? (ht : tokens[j]? = some t) (h : t.kind.additive? = none) : NoAdditive tokens j := by
  intro t' ht'
  cases Option.some.inj (ht.symm.trans ht')
  exact h

theorem not_noMultiplicative_iff :
    ¬NoMultiplicative tokens j ↔ ∃ t o, tokens[j]? = some t ∧ t.kind.multiplicative? = some o := by
  simp [NoMultiplicative, Option.ne_none_iff_exists']

theorem not_noAdditive_iff : ¬NoAdditive tokens j ↔ ∃ t o, tokens[j]? = some t ∧ t.kind.additive? = some o := by
  simp [NoAdditive, Option.ne_none_iff_exists']

/-- A repetition whose next step fails is over. -/
theorem LoopsTo.builds (h : LoopsTo tokens r step i e j) (hstep : ∀ left run, Misses tokens (step left) j run) :
    Builds tokens r i e j := by
  intro run
  refine h run _ _ _ fun run' ha => Meets.iterate_step ?_
  exact Meets.mono (hstep _ _) (fun _ _ _ => False.elim) (fun _ ha' => ⟨rfl, rfl, ha'.trans ha⟩) id

theorem Builds.loopsTo (h : Builds tokens r i e j) : LoopsTo tokens (r >>= iterate step) step i e j :=
  fun run _ _ _ hk => (h run).bind hk

/-- A repetition that comes by with the left operand of an operator comes by with its value. -/
theorem LoopsTo.binary (h : LoopsTo tokens r step i e m) (hj : m < j) (hsize : j ≤ tokens.size)
    (hstep : ∀ left run, Matches tokens (step left) m run (f.build run.arena).2.nextId j
      ((f.build run.arena).2.push (.binary o left (f.build run.arena).1))) :
    LoopsTo tokens r step i (.binary o e f) j := by
  intro run Q F E hk
  refine h run Q F E fun run₁ h₁ => Meets.iterate_step ((hstep _ _).meets fun run₂ h₂ => ⟨hj, hsize, ?_⟩)
  rw [h₁] at h₂ ⊢
  exact hk run₂ h₂

/-- What becomes of the right operand of an operator. -/
def Combined (o : Operator) (left : NodeId) (Q : NodeId → Nat → Run → Prop) (y : NodeId) (k : Nat) (run : Run) : Prop :=
  ∃ x run', Q x k run' ∧ y = run'.arena.nextId ∧ run.arena = run'.arena.push (.binary o left x)

theorem Combined.eq {x y : NodeId} {a : Arena} {k : Nat}
    (h : Combined o left (fun y k run => y = x ∧ k = j ∧ run.arena = a) y k run) :
    y = a.nextId ∧ k = j ∧ run.arena = a.push (.binary o left x) := by
  obtain ⟨_, run', ⟨rfl, rfl, rfl⟩, rfl, ha⟩ := h
  exact ⟨rfl, rfl, ha⟩

theorem misses_operation (h : ∀ t, tokens[i]? = some t → Class.ofKind t.kind ≠ c) (o : Operator) (left : NodeId)
    (run : Run) : Misses tokens (operation c o right left) i run :=
  (misses_symbol h).bind

theorem misses_productStep (h : NoMultiplicative tokens i) (left : NodeId) (run : Run) :
    Misses tokens (productStep enter left) i run := by
  have hclass : ∀ t, tokens[i]? = some t → Class.ofKind t.kind ≠ .star ∧ Class.ofKind t.kind ≠ .slash :=
    fun t ht => Kind.multiplicative?_eq_none.mp (h t ht)
  exact (misses_operation (fun t ht => (hclass t ht).1) _ left run).or
    (misses_operation (fun t ht => (hclass t ht).2) _ left)

theorem misses_sumStep (h : NoAdditive tokens i) (h' : NoMultiplicative tokens i) (left : NodeId) (run : Run) :
    Misses tokens (sumStep enter left) i run := by
  have hclass : ∀ t, tokens[i]? = some t → Class.ofKind t.kind ≠ .plus ∧ Class.ofKind t.kind ≠ .minus :=
    fun t ht => Kind.additive?_eq_none.mp (h t ht)
  exact (misses_operation (fun t ht => (hclass t ht).1) _ left run).or fun run₁ =>
    (misses_operation (fun t ht => (hclass t ht).2) _ left run₁).or (misses_productStep h' left)

/-- A sign starts no atom. -/
theorem misses_atom_of_minus (ht : tokens[i]? = some t) (hk : t.kind = .minus) (run : Run) :
    Misses tokens (atom enter) i run := by
  have hc : Class.ofKind t.kind = .minus := by rw [hk]; rfl
  refine (misses_leaf (class_ne_of_getElem? ht hc (by decide))).or fun _ => ?_
  refine (misses_leaf (class_ne_of_getElem? ht hc (by decide))).or fun _ => ?_
  exact (misses_symbol (class_ne_of_getElem? ht hc (by decide))).bind

section Operation

variable {Q : NodeId → Nat → Run → Prop} {F : Run → Prop} {E : Prop}

/-- An operator ends as its right operand does. -/
theorem meets_operation_of_getElem? (ht : tokens[i]? = some t) (hc : Class.ofKind t.kind = c)
    (h : Meets tokens right (i + 1) run Q F E) (o : Operator) (left : NodeId) :
    Meets tokens (operation c o right left) i run (Combined o left Q) F E := by
  refine Meets.bind (meets_symbol (fun _ _ _ => ?_) fun hne => absurd hc (hne t ht))
  exact Meets.bind (h.mono (fun x k run' hx => meets_create ⟨x, run', hx, rfl, rfl⟩) (fun _ => id) id)

variable (hF : ∀ run' run'', F run' → run''.arena = run'.arena → F run'')
include hF

/-- An operator of a product ends as the factor behind it does. -/
theorem meets_productStep (ht : tokens[i]? = some t) (ho : t.kind.multiplicative? = some o)
    (h : ∀ run', run'.arena = run.arena → Meets tokens (factor enter) (i + 1) run' Q F E) (left : NodeId) :
    Meets tokens (productStep enter left) i run (Combined o left Q) F E := by
  rcases Kind.multiplicative?_eq_some.mp ho with ⟨hc, rfl⟩ | ⟨hc, rfl⟩
  · exact (meets_operation_of_getElem? ht hc (h run rfl) _ left).orElse_misses
      (misses_operation (class_ne_of_getElem? ht hc (by decide)) _ left) hF
  · refine (misses_operation (class_ne_of_getElem? ht hc (by decide)) _ left run).orElse fun run₁ h₁ => ?_
    exact meets_operation_of_getElem? ht hc (h run₁ h₁) _ left

omit hF in
/-- In a sum the operators of a sum are tried before, and fail. -/
theorem meets_sumStep_of_productStep (ht : tokens[i]? = some t) (ho : t.kind.multiplicative? = some o)
    (h : ∀ run', run'.arena = run.arena → Meets tokens (productStep enter left) i run' Q F E) :
    Meets tokens (sumStep enter left) i run Q F E := by
  have hclass : Class.ofKind t.kind ≠ .plus ∧ Class.ofKind t.kind ≠ .minus := by
    rcases Kind.multiplicative?_eq_some.mp ho with ⟨hc, -⟩ | ⟨hc, -⟩ <;> rw [hc] <;> decide
  refine (misses_operation (class_ne_of_getElem? ht rfl hclass.1) _ left run).orElse fun run₁ h₁ => ?_
  refine (misses_operation (class_ne_of_getElem? ht rfl hclass.2) _ left run₁).orElse fun run₂ h₂ => ?_
  exact h run₂ (h₂.trans h₁)

/-- An operator of a sum ends as the product behind it does. -/
theorem meets_sumStep_of_additive (ht : tokens[i]? = some t) (ho : t.kind.additive? = some o)
    (h : ∀ run', run'.arena = run.arena → Meets tokens (product enter) (i + 1) run' Q F E) (left : NodeId) :
    Meets tokens (sumStep enter left) i run (Combined o left Q) F E := by
  have hmul : NoMultiplicative tokens i := noMultiplicative_of_getElem? ht (Kind.multiplicative?_of_additive? ho)
  rcases Kind.additive?_eq_some.mp ho with ⟨hc, rfl⟩ | ⟨hc, rfl⟩
  · refine (meets_operation_of_getElem? ht hc (h run rfl) _ left).orElse_misses (fun run₁ => ?_) hF
    exact (misses_operation (class_ne_of_getElem? ht hc (by decide)) _ left run₁).or (misses_productStep hmul left)
  · refine (misses_operation (class_ne_of_getElem? ht hc (by decide)) _ left run).orElse fun run₁ h₁ => ?_
    exact (meets_operation_of_getElem? ht hc (h run₁ h₁) _ left).orElse_misses (misses_productStep hmul left) hF

end Operation

theorem Matches.of_combined {r : Rule NodeId} {x : NodeId} {a : Arena}
    (h : Meets tokens r i run (Combined o left fun y k run => y = x ∧ k = j ∧ run.arena = a) (fun _ => False) False) :
    Matches tokens r i run a.nextId j (a.push (.binary o left x)) :=
  Meets.mono h (fun _ _ _ hq => hq.eq) (fun _ => id) id

/-- An operator of a product with a factor behind it. -/
theorem matches_productStep (ht : tokens[i]? = some t) (ho : t.kind.multiplicative? = some o)
    (h : Builds tokens (factor enter) (i + 1) f j) (left : NodeId) (run : Run) :
    Matches tokens (productStep enter left) i run (f.build run.arena).2.nextId j
      ((f.build run.arena).2.push (.binary o left (f.build run.arena).1)) :=
  .of_combined (meets_productStep (fun _ _ hf _ => hf) ht ho (fun run' ha => ha ▸ h run') left)

theorem matches_sumStep_of_multiplicative (ht : tokens[i]? = some t) (ho : t.kind.multiplicative? = some o)
    (h : Builds tokens (factor enter) (i + 1) f j) (left : NodeId) (run : Run) :
    Matches tokens (sumStep enter left) i run (f.build run.arena).2.nextId j
      ((f.build run.arena).2.push (.binary o left (f.build run.arena).1)) :=
  meets_sumStep_of_productStep ht ho fun run' ha => ha ▸ matches_productStep ht ho h left run'

/-- An operator of a sum with a product behind it. -/
theorem matches_sumStep_of_additive (ht : tokens[i]? = some t) (ho : t.kind.additive? = some o)
    (h : Builds tokens (product enter) (i + 1) f j) (left : NodeId) (run : Run) :
    Matches tokens (sumStep enter left) i run (f.build run.arena).2.nextId j
      ((f.build run.arena).2.push (.binary o left (f.build run.arena).1)) :=
  .of_combined (meets_sumStep_of_additive (fun _ _ hf _ => hf) ht ho (fun run' ha => ha ▸ h run') left)

theorem builds_leaf {x : NodeId} (ht : tokens[i]? = some t) (hv : t.kind.isValued = true) (hp : t.payload = some x) :
    Builds tokens (atom enter) i (.leaf x) (i + 1) := by
  intro run
  by_cases hc : Class.ofKind t.kind = .identifier
  · exact (matches_leaf ht hc hp).orElse
  · have hc' : Class.ofKind t.kind = .literal := ((Class.isValued_iff _).mp hv).resolve_left hc
    refine (misses_leaf (class_ne_of_getElem? ht rfl hc)).orElse fun run₁ h₁ => ?_
    apply Matches.orElse
    rw [Tree.build, ← h₁]
    exact matches_leaf ht hc' hp

theorem builds_paren {t' : Token} (ht : tokens[i]? = some t) (hk : t.kind = .leftParen)
    (h : Builds tokens (enter .sum) (i + 1) e j) (ht' : tokens[j]? = some t') (hk' : t'.kind = .rightParen) :
    Builds tokens (atom enter) i (.paren e) (j + 1) := by
  intro run
  have hc : Class.ofKind t.kind = .leftParen := by rw [hk]; rfl
  refine (misses_leaf (class_ne_of_getElem? ht hc (by decide))).orElse fun run₁ h₁ => ?_
  refine (misses_leaf (class_ne_of_getElem? ht hc (by decide))).orElse fun run₂ h₂ => ?_
  refine (matches_symbol ht hc).bind fun run₃ h₃ => (h run₃).bind fun run₄ h₄ => ?_
  refine (matches_symbol ht' (by rw [hk']; rfl)).bind fun run₅ h₅ => ?_
  rw [h₃, h₂, h₁] at h₄ ⊢
  rw [Tree.build_paren, ← h₄, ← h₅]
  exact matches_create _

theorem builds_negation (ht : tokens[i]? = some t) (hk : t.kind = .minus)
    (h : Builds tokens (enter .factor) (i + 1) e j) : Builds tokens (factor enter) i (.negation e) j := by
  intro run
  refine Matches.orElse ((matches_symbol ht (by rw [hk]; rfl)).bind fun run₁ h₁ => (h run₁).bind fun run₂ h₂ => ?_)
  rw [h₁] at h₂ ⊢
  rw [Tree.build_negation, ← h₂]
  exact matches_create _

/-- A factor that is no negation. -/
theorem Builds.factor_of_atom (h : Builds tokens (atom enter) i e j) (ht : tokens[i]? = some t)
    (hk : t.kind ≠ .minus) : Builds tokens (factor enter) i e j := by
  intro run
  have hminus : Class.ofKind t.kind ≠ .minus := fun hc => hk (Class.eq_kind hc (by decide))
  refine Misses.orElse (misses_symbol (class_ne_of_getElem? ht rfl hminus)).bind fun run₁ h₁ => ?_
  rw [← h₁]
  exact h run₁

end Levels

end Formula.Grammar
