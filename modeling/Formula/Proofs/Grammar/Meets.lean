import Formula.Grammar.Program

/-!
# What a rule brings about

`Meets tokens r i run Q F E` says how the rule `r` may end that starts at the position `i`: it matches as `Q` says, it
fails as `F` says, and it is exhausted only if `E` holds. There is one law for every way to build a rule; a repetition
needs an invariant that its step keeps (`Meets.iterate`). From them there is one law for every rule of the grammar that
reads a token of its own, which gives what is left to show for the rules that it enters.
-/

namespace Formula.Grammar

open Rule hiding pure bind

/-- The run with a mark for a class that was looked for in vain. -/
def Run.mark (c : Class) (i : Nat) (run : Run) : Run :=
  { run with probe := run.probe.mark c i }

/-- The run with one more node. -/
def Run.push (node : Node) (run : Run) : Run :=
  { run with arena := run.arena.push node }

section

variable {α β : Type} (tokens : Array Token)

/-- How a rule ends that starts at a position with a run. -/
def Meets (r : Rule α) (i : Nat) (run : Run) (Q : α → Nat → Run → Prop) (F : Run → Prop) (E : Prop) : Prop :=
  match r tokens i run with
  | (.matched a j, run') => Q a j run'
  | (.failed, run') => F run'
  | (.exhausted, _) => E

variable {tokens} {r r' : Rule α} {i j : Nat} {run : Run}
variable {Q Q' : α → Nat → Run → Prop} {F F' : Run → Prop} {E E' : Prop}

theorem meets_of_matched {a : α} {run' : Run} (h : r tokens i run = (.matched a j, run')) :
    Meets tokens r i run Q F E ↔ Q a j run' := by
  rw [Meets, h]

theorem meets_of_failed {run' : Run} (h : r tokens i run = (.failed, run')) : Meets tokens r i run Q F E ↔ F run' := by
  rw [Meets, h]

theorem meets_of_exhausted {run' : Run} (h : r tokens i run = (.exhausted, run')) : Meets tokens r i run Q F E ↔ E := by
  rw [Meets, h]

theorem Meets.ne_exhausted (h : Meets tokens r i run Q F False) : (r tokens i run).1 ≠ .exhausted := by
  intro he
  rw [Meets] at h
  split at h <;> simp_all

theorem Meets.mono (h : Meets tokens r i run Q F E) (hQ : ∀ a j run', Q a j run' → Q' a j run')
    (hF : ∀ run', F run' → F' run') (hE : E → E') : Meets tokens r i run Q' F' E' := by
  unfold Meets at h ⊢
  split
  · rename_i heq
    rw [heq] at h
    exact hQ _ _ _ h
  · rename_i heq
    rw [heq] at h
    exact hF _ h
  · rename_i heq
    rw [heq] at h
    exact hE h

theorem Meets.and (h : Meets tokens r i run Q F E) (h' : Meets tokens r i run Q' F' E') :
    Meets tokens r i run (fun a j run' => Q a j run' ∧ Q' a j run') (fun run' => F run' ∧ F' run') (E ∧ E') := by
  unfold Meets at h h' ⊢
  split <;> rename_i heq <;> rw [heq] at h h' <;> exact ⟨h, h'⟩

/-- What an outcome brings about may be shown with the outcome at hand. -/
theorem Meets.remember
    (h : Meets tokens r i run (fun a j run' => r tokens i run = (.matched a j, run') → Q a j run')
      (fun run' => r tokens i run = (.failed, run') → F run') E) : Meets tokens r i run Q F E := by
  unfold Meets at h ⊢
  split
  · rename_i heq
    rw [heq] at h
    exact h rfl
  · rename_i heq
    rw [heq] at h
    exact h rfl
  · rename_i heq
    rw [heq] at h
    exact h

/-! ## One law for each operator -/

theorem meets_pure {a : α} (h : Q a i run) : Meets tokens (pure a : Rule α) i run Q F E := h

theorem meets_exhausted (h : E) : Meets tokens (Rule.exhausted : Rule α) i run Q F E := h

theorem Meets.bind {f : α → Rule β} {Q : β → Nat → Run → Prop}
    (h : Meets tokens r i run (fun a j run' => Meets tokens (f a) j run' Q F E) F E) :
    Meets tokens (r >>= f) i run Q F E := by
  cases hr : r tokens i run with
  | mk o run' =>
    cases o with
    | matched a j =>
      rw [meets_of_matched hr] at h
      rw [Meets, bind_matched f hr]
      exact h
    | failed =>
      rw [meets_of_failed hr] at h
      rw [Meets, bind_failed f hr]
      exact h
    | exhausted =>
      rw [meets_of_exhausted hr] at h
      rw [Meets, bind_exhausted f hr]
      exact h

theorem Meets.orElse (h : Meets tokens r i run Q (fun run' => Meets tokens r' i run' Q F E) E) :
    Meets tokens (r <|> r') i run Q F E := by
  cases hr : r tokens i run with
  | mk o run' =>
    cases o with
    | matched a j =>
      rw [meets_of_matched hr] at h
      rw [Meets, orElse_matched r' hr]
      exact h
    | failed =>
      rw [meets_of_failed hr] at h
      rw [Meets, orElse_failed r' hr]
      exact h
    | exhausted =>
      rw [meets_of_exhausted hr] at h
      rw [Meets, orElse_exhausted r' hr]
      exact h

theorem meets_token {c : Class} {value? : Token → Option α}
    (hQ : ∀ t a, tokens[i]? = some t → value? t = some a → Q a (i + 1) run)
    (hF : (∀ t, tokens[i]? = some t → value? t = none) → F (run.mark c i)) :
    Meets tokens (token c value?) i run Q F E := by
  unfold Meets token
  cases ht : tokens[i]? with
  | none => exact hF fun t h => by rw [ht] at h; cases h
  | some t =>
    cases hv : value? t with
    | none =>
      rw [Option.bind_some, hv]
      exact hF fun t' h => by rw [ht] at h; cases h; exact hv
    | some a =>
      rw [Option.bind_some, hv]
      exact hQ t a ht hv

theorem meets_symbol {c : Class} {Q : Unit → Nat → Run → Prop}
    (hQ : ∀ t, tokens[i]? = some t → Class.ofKind t.kind = c → Q () (i + 1) run)
    (hF : (∀ t, tokens[i]? = some t → Class.ofKind t.kind ≠ c) → F (run.mark c i)) :
    Meets tokens (symbol c) i run Q F E := by
  refine meets_token (fun t _ ht hv => ?_) (fun h => hF fun t ht hc => ?_)
  · split at hv
    · exact hQ t ht ‹_›
    · cases hv
  · have := h t ht
    simp [hc] at this

theorem meets_leaf {c : Class} {Q : NodeId → Nat → Run → Prop}
    (hQ : ∀ t id, tokens[i]? = some t → Class.ofKind t.kind = c → t.payload = some id → Q id (i + 1) run)
    (hF : (∀ t, tokens[i]? = some t → Class.ofKind t.kind = c → t.payload = none) → F (run.mark c i)) :
    Meets tokens (leaf c) i run Q F E := by
  refine meets_token (fun t id ht hv => ?_) (fun h => hF fun t ht hc => ?_)
  · split at hv
    · exact hQ t id ht ‹_› hv
    · cases hv
  · have := h t ht
    rwa [if_pos hc] at this

theorem meets_atEnd {Q : Unit → Nat → Run → Prop} (hQ : tokens.size ≤ i → Q () i run) (hF : i < tokens.size → F run) :
    Meets tokens atEnd i run Q F E := by
  unfold Meets atEnd
  by_cases h : i < tokens.size
  · simpa only [if_pos h] using hF h
  · simpa only [if_neg h] using hQ (Nat.le_of_not_lt h)

theorem meets_create {node : Node} {Q : NodeId → Nat → Run → Prop} (h : Q run.arena.nextId i (run.push node)) :
    Meets tokens (create node) i run Q F E := h

theorem meets_rootOf {items : List NodeId} {Q : NodeId → Nat → Run → Prop} (hsingle : ∀ x, items = [x] → Q x i run)
    (hsequence : items.length ≠ 1 → Q run.arena.nextId i (run.push (.sequence items))) :
    Meets tokens (rootOf items) i run Q F E := by
  rcases items with _ | ⟨x, _ | ⟨y, items⟩⟩
  · exact meets_create (hsequence (by simp))
  · exact meets_pure (hsingle x rfl)
  · exact meets_create (hsequence (by simp))

theorem meets_optional {r : Rule Unit} {Q : Unit → Nat → Run → Prop}
    (h : Meets tokens r i run Q (fun run' => Q () i run') E) : Meets tokens (optional r) i run Q F E :=
  Meets.orElse (h.mono (fun _ _ _ hq => hq) (fun _ hq => meets_pure hq) id)

/-- One more step of a repetition. -/
theorem Meets.iterate_step {step : α → Rule α} {a : α}
    (h : Meets tokens (step a) i run
      (fun b j run' => i < j ∧ j ≤ tokens.size ∧ Meets tokens (iterate step b) j run' Q F E)
      (fun run' => Q a i run') E) : Meets tokens (iterate step a) i run Q F E := by
  cases hr : step a tokens i run with
  | mk o run' =>
    cases o with
    | matched b j =>
      rw [meets_of_matched hr] at h
      rw [Meets, iterate_matched hr h.1 h.2.1]
      exact h.2.2
    | failed =>
      rw [meets_of_failed hr] at h
      rw [Meets, iterate_failed hr]
      exact h
    | exhausted =>
      rw [meets_of_exhausted hr] at h
      rw [Meets, iterate, hr]
      exact h

/-- What every step of a repetition keeps holds until its step fails. -/
theorem Meets.iterate {step : α → Rule α} (I : α → Nat → Run → Prop)
    (hstep : ∀ a i run, I a i run → Meets tokens (step a) i run
      (fun b j run' => i < j ∧ j ≤ tokens.size ∧ I b j run') (fun run' => Q a i run') E)
    {a : α} (h : I a i run) : Meets tokens (iterate step a) i run Q F E := by
  induction hn : tokens.size - i using Nat.strongRecOn generalizing a i run with
  | _ n ih =>
    refine Meets.iterate_step ((hstep a i run h).mono (fun b j run' hb => ?_) (fun _ hq => hq) id)
    exact ⟨hb.1, hb.2.1, ih _ (by omega) hb.2.2 rfl⟩

/-! ## One law for each rule -/

section Rules

variable {enter : Level → Rule NodeId} {expr : Rule NodeId} {Q : NodeId → Nat → Run → Prop}

/-- An operator with its right operand. -/
theorem meets_operation {right : Rule NodeId} {c : Class} {o : Operator} {left : NodeId}
    (hright : ∀ t, tokens[i]? = some t → Class.ofKind t.kind = c → Meets tokens right (i + 1) run
      (fun x j run' => Q run'.arena.nextId j (run'.push (.binary o left x))) F E)
    (hF : (∀ t, tokens[i]? = some t → Class.ofKind t.kind ≠ c) → F (run.mark c i)) :
    Meets tokens (operation c o right left) i run Q F E := by
  refine Meets.bind (meets_symbol (fun t ht hc => ?_) hF)
  exact Meets.bind ((hright t ht hc).mono (fun _ _ _ hq => meets_create hq) (fun _ => id) id)

/-- An atom is a leaf, or a sum between parentheses. -/
theorem meets_atom
    (hleaf : ∀ t id run', run'.arena = run.arena → tokens[i]? = some t → t.kind.isValued = true →
      t.payload = some id → Q id (i + 1) run')
    (hparen : ∀ t run', run'.arena = run.arena → tokens[i]? = some t → t.kind = .leftParen →
      Meets tokens (enter .sum) (i + 1) run'
        (fun x j run₁ =>
          (∀ t', tokens[j]? = some t' → t'.kind = .rightParen → Q run₁.arena.nextId (j + 1) (run₁.push (.paren x))) ∧
          F (run₁.mark .rightParen j)) F E)
    (hF : ∀ run', run'.arena = run.arena → F run') : Meets tokens (atom enter) i run Q F E := by
  refine Meets.orElse (meets_leaf (fun t id ht hc => ?_) fun _ => ?_)
  · exact hleaf t id _ rfl ht ((Class.isValued_iff _).mpr (.inl hc))
  refine Meets.orElse (meets_leaf (fun t id ht hc => ?_) fun _ => ?_)
  · exact hleaf t id _ rfl ht ((Class.isValued_iff _).mpr (.inr hc))
  refine Meets.bind (meets_symbol (fun t ht hc => ?_) fun _ => hF _ rfl)
  have hinner := hparen t ((run.mark .identifier i).mark .literal i) rfl ht (Class.eq_kind hc (by decide))
  refine Meets.bind (hinner.mono (fun x j run₁ hx => ?_) (fun _ => id) id)
  refine Meets.bind (meets_symbol (fun t' ht' hc' => ?_) fun _ => hx.2)
  exact meets_create (hx.1 t' ht' (Class.eq_kind hc' (by decide)))

/-- A factor is a sign with its operand; failing that, it is an atom. -/
theorem meets_factor
    (hsign : ∀ t, tokens[i]? = some t → t.kind = .minus → Meets tokens (enter .factor) (i + 1) run
      (fun x j run' => Q run'.arena.nextId j (run'.push (.negation x)))
      (fun run' => Meets tokens (atom enter) i run' Q F E) E)
    (hatom : ∀ run', run'.arena = run.arena → Meets tokens (atom enter) i run' Q F E) :
    Meets tokens (factor enter) i run Q F E := by
  refine Meets.orElse (Meets.bind (meets_symbol (fun t ht hc => ?_) fun _ => hatom _ rfl))
  exact Meets.bind ((hsign t ht (Class.eq_kind hc (by decide))).mono (fun _ _ _ hq => meets_create hq) (fun _ => id) id)

/-- A statement is an assignment; failing that, it is an expression. -/
theorem meets_statement
    (hvalue : ∀ t target t', tokens[i]? = some t → t.kind = .identifier → t.payload = some target →
      tokens[i + 1]? = some t' → t'.kind = .assign → Meets tokens expr (i + 1 + 1) run
        (fun x j run' => Q run'.arena.nextId j (run'.push (.assignment target x)))
        (fun run' => Meets tokens expr i run' Q F E) E)
    (hexpr : ∀ run', run'.arena = run.arena → Meets tokens expr i run' Q F E) :
    Meets tokens (statement expr) i run Q F E := by
  refine Meets.orElse (Meets.bind (meets_leaf (fun t target ht hc hp => ?_) fun _ => hexpr _ rfl))
  refine Meets.bind (meets_symbol (fun t' ht' hc' => ?_) fun _ => hexpr _ rfl)
  have hassignment := hvalue t target t' ht (Class.eq_kind hc (by decide)) hp ht' (Class.eq_kind hc' (by decide))
  exact Meets.bind (hassignment.mono (fun _ _ _ hq => meets_create hq) (fun _ => id) id)

/-- Statements, as far as they go on behind semicolons. -/
theorem meets_statements {Q : List NodeId → Nat → Run → Prop} (I : List NodeId → Nat → Run → Prop)
    (hfirst : Meets tokens (statement expr) i run (fun x j run' => I [x] j run') F E)
    (hnext : ∀ items j run' t, I items j run' → tokens[j]? = some t → t.kind = .semicolon →
      Meets tokens (statement expr) (j + 1) run' (fun x k run₁ => j < k ∧ k ≤ tokens.size ∧ I (x :: items) k run₁)
        (fun run₁ => Q items.reverse j run₁) E)
    (hend : ∀ items j run' run₁, I items j run' → run₁.arena = run'.arena → Q items.reverse j run₁) :
    Meets tokens (statements expr) i run Q F E := by
  refine Meets.bind (hfirst.mono (fun x j run' hI => ?_) (fun _ => id) id)
  refine Meets.bind (Meets.iterate I (fun items j run' hI => ?_) hI)
  refine Meets.bind (meets_symbol (fun t ht hc => ?_) fun _ => meets_pure (hend items j run' _ hI rfl))
  have hitem := hnext items j run' t hI ht (Class.eq_kind hc (by decide))
  exact Meets.bind (hitem.mono (fun _ _ _ hq => meets_pure hq) (fun _ hq => meets_pure hq) id)

/-- A program ends behind its statements, or behind one semicolon more. -/
theorem meets_program
    (h : Meets tokens (statements expr) i run
      (fun items j run' => ∀ k run₁, run₁.arena = run'.arena →
        (k = j ∨ k = j + 1 ∧ ∃ t, tokens[j]? = some t ∧ t.kind = .semicolon) →
        (k < tokens.size → F run₁) ∧
        (tokens.size ≤ k → (∀ x, items = [x] → Q x k run₁) ∧
          (items.length ≠ 1 → Q run₁.arena.nextId k (run₁.push (.sequence items))))) F E) :
    Meets tokens (program expr) i run Q F E := by
  refine Meets.bind (h.mono (fun items j run' hend => ?_) (fun _ => id) id)
  have hend' : ∀ k run₁, run₁.arena = run'.arena →
      (k = j ∨ k = j + 1 ∧ ∃ t, tokens[j]? = some t ∧ t.kind = .semicolon) →
      Meets tokens (do Rule.atEnd; rootOf items) k run₁ Q F E := by
    intro k run₁ ha hk
    obtain ⟨hfail, hmatch⟩ := hend k run₁ ha hk
    exact Meets.bind (meets_atEnd (fun hle => meets_rootOf (hmatch hle).1 (hmatch hle).2) hfail)
  refine Meets.bind (meets_optional (meets_symbol (fun t ht hc => ?_) fun _ => hend' j _ rfl (.inl rfl)))
  exact hend' (j + 1) run' rfl (.inr ⟨rfl, t, ht, Class.eq_kind hc (by decide)⟩)

end Rules

end

end Formula.Grammar
