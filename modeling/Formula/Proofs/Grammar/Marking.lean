import Formula.Proofs.Grammar.Completeness

/-!
# Rules that leave a mark

`Marks tokens c p r i` says that the rule `r` that starts at `i` leaves the mark for the class `c` at the position `p`,
however it ends. A mark is never taken back (`Keeps`), so it is enough that some part of the rule leaves it that is sure
to be run: one behind rules that are sure to match, or behind alternatives that are sure to fail.
-/

namespace Formula.Grammar

open Rule hiding pure bind

/-- The probe has the class marked at the position, or a mark behind it; one that explains another position knows
nothing of it. -/
def Probe.Marked (c : Class) (p : Nat) : Probe → Prop
  | locate furthest => p ≤ furthest
  | explain position expected => position = p → c ∈ expected

theorem Probe.marked_mark (c : Class) (p : Nat) (probe : Probe) : (probe.mark c p).Marked c p := by
  cases probe with
  | locate furthest => exact Nat.le_max_right _ _
  | explain position expected =>
    rintro rfl
    by_cases h : c ∈ expected <;> simp [h]

theorem Probe.Marked.mark {c : Class} {p : Nat} {probe : Probe} (h : probe.Marked c p) (c' : Class) (i : Nat) :
    (probe.mark c' i).Marked c p := by
  cases probe with
  | locate furthest => exact Nat.le_trans h (Nat.le_max_left _ _)
  | explain position expected =>
    intro hp
    have hc := h hp
    split
    · exact List.mem_cons_of_mem _ hc
    · exact hc

section Operators

variable {α β : Type} (tokens : Array Token) (c : Class) (p : Nat)

/-- The rule leaves the mark, however it ends. -/
def Marks (r : Rule α) (i : Nat) : Prop :=
  ∀ run, Meets tokens r i run (fun _ _ run' => run'.probe.Marked c p) (fun run' => run'.probe.Marked c p) True

/-- The rule does not take the mark back. -/
def Keeps (r : Rule α) : Prop :=
  Simulates tokens tokens (fun s _ => s.probe.Marked c p) (fun _ _ => True) r r

/-- The same for rules that depend on a value, whatever it is. -/
def KeepsAll (f : α → Rule β) : Prop :=
  ∀ a b, Simulates tokens tokens (fun s _ => s.probe.Marked c p) (fun _ _ => True) (f a) (f b)

variable {tokens c p} {r r' : Rule α} {i : Nat}

theorem Keeps.meets (h : Keeps tokens c p r) {run : Run} (hrun : run.probe.Marked c p) :
    Meets tokens r i run (fun _ _ run' => run'.probe.Marked c p) (fun run' => run'.probe.Marked c p) True := by
  have hf := h i run run hrun
  unfold Meets
  rcases he : r tokens i run with ⟨x | _ | _, run'⟩ <;> rw [he] at hf
  · cases hf
    assumption
  · cases hf
    assumption
  · trivial

theorem Keeps.bind {f : α → Rule β} (h : Keeps tokens c p r) (hf : KeepsAll tokens c p f) :
    Keeps tokens c p (r >>= f) :=
  Simulates.bind h fun a b _ => hf a b

theorem Marks.bind {f : α → Rule β} (h : Marks tokens c p r i) (hf : KeepsAll tokens c p f) :
    Marks tokens c p (r >>= f) i := fun run =>
  Meets.bind ((h run).mono (fun a _ _ hm => Keeps.meets (hf a a) hm) (fun _ => id) id)

theorem Marks.orElse (h : Marks tokens c p r i) (h' : Keeps tokens c p r') : Marks tokens c p (r <|> r') i := fun run =>
  Meets.orElse ((h run).mono (fun _ _ _ => id) (fun _ hm => h'.meets hm) id)

theorem Marks.or (h : ∀ run, Misses tokens r i run) (h' : Marks tokens c p r' i) : Marks tokens c p (r <|> r') i :=
  fun run => (h run).orElse fun run' _ => h' run'

theorem KeepsAll.iterate {step : α → Rule α} (h : KeepsAll tokens c p step) : KeepsAll tokens c p (Rule.iterate step) :=
  fun _ _ => Simulates.iterate rfl (fun a b _ => h a b) trivial

/-- The values that the steps of a repetition give are of no account. -/
theorem Marks.iterate {step : α → Rule α} (h : ∀ a, Marks tokens c p (step a) i)
    (hk : KeepsAll tokens c p step) (a : α) : Marks tokens c p (Rule.iterate step a) i := by
  intro run
  have hstep := h a run
  rcases he : step a tokens i run with ⟨b | _ | _, run'⟩
  · rename_i j
    rw [meets_of_matched he] at hstep
    by_cases hij : i < j ∧ j ≤ tokens.size
    · rw [Meets, iterate_matched he hij.1 hij.2]
      exact Keeps.meets (hk.iterate b b) hstep
    · rw [Meets, Rule.iterate, he]
      simpa only [if_neg hij] using hstep
  · rw [meets_of_failed he] at hstep
    rw [Meets, iterate_failed he]
    exact hstep
  · rw [Meets, Rule.iterate, he]
    trivial

theorem marks_symbol (h : ∀ t, tokens[p]? = some t → Class.ofKind t.kind ≠ c) : Marks tokens c p (symbol c) p :=
  fun run => meets_symbol (fun t ht hc => absurd hc (h t ht)) fun _ => Probe.marked_mark c p run.probe

theorem marks_leaf (h : ∀ t, tokens[p]? = some t → Class.ofKind t.kind = c → t.payload = none) :
    Marks tokens c p (leaf c) p := fun run =>
  meets_leaf (fun t id ht hc hp => by rw [h t ht hc] at hp; cases hp) fun _ => Probe.marked_mark c p run.probe

/-- A rule that is sure to match makes way for the next one. -/
theorem Marks.matched_bind {f : α → Rule β} {j : Nat} (h : ∀ run, ∃ x a, Matches tokens r i run x j a)
    (hf : ∀ x, Marks tokens c p (f x) j) : Marks tokens c p (r >>= f) i := fun run =>
  let ⟨x, _, hx⟩ := h run
  hx.bind fun run' _ => hf x run'

end Operators

/-! ## Rules of the grammar -/

section Levels

variable (tokens : Array Token) (c : Class) (p : Nat)

theorem simulation_marked : Simulation tokens tokens (fun s _ => s.probe.Marked c p) (fun _ _ => True) where
  mark c' i h := Probe.Marked.mark h c' i
  agree := List.forall₂_same.mpr fun t _ => .refl (fun _ => trivial) t
  create _ h := ⟨trivial, h⟩

variable {tokens c p} {n i m : Nat} {k : Kind} {o : Operator} {t : Token} {right : Rule NodeId} {e : Tree}

/-- Nodes of any kind are made without a mark. -/
theorem simulates_create_marked (node node' : Node) :
    Simulates tokens tokens (fun s _ => s.probe.Marked c p) (fun _ _ => True) (create node) (create node') :=
  fun _ _ _ hs => .matched _ trivial hs

theorem keepsAll_create {α : Type} (node : α → Node) : KeepsAll tokens c p fun a => create (node a) :=
  fun _ _ => simulates_create_marked _ _

theorem keeps_inner (n : Nat) (l : Level) : Keeps tokens c p (inner n l) :=
  simulates_inner (simulation_marked tokens c p) n l

theorem keeps_atom (n : Nat) : Keeps tokens c p (atom (inner n)) :=
  simulates_atom (simulation_marked tokens c p) (keeps_inner n)

theorem keeps_factor (n : Nat) : Keeps tokens c p (factor (inner n)) :=
  simulates_factor (simulation_marked tokens c p) (keeps_inner n)

theorem keeps_product (n : Nat) : Keeps tokens c p (product (inner n)) :=
  simulates_product (simulation_marked tokens c p) (keeps_inner n)

theorem keepsAll_operation (c' : Class) (o : Operator) (h : Keeps tokens c p right) :
    KeepsAll tokens c p (operation c' o right) :=
  fun _ _ => simulates_operation (simulation_marked tokens c p) c' o h trivial

theorem keepsAll_productStep (n : Nat) : KeepsAll tokens c p (productStep (inner n)) :=
  fun _ _ => simulates_productStep (simulation_marked tokens c p) (keeps_inner n) trivial

theorem keepsAll_sumStep (n : Nat) : KeepsAll tokens c p (sumStep (inner n)) :=
  fun _ _ => simulates_sumStep (simulation_marked tokens c p) (keeps_inner n) trivial

/-- The rule behind an opening parenthesis. -/
theorem keepsAll_paren (n : Nat) : KeepsAll tokens c p (fun (_ : Unit) => (do
    let inner ← inner n .sum
    Rule.symbol .rightParen
    Rule.create (.paren inner))) :=
  fun _ _ => (keeps_inner n .sum).bind fun _ _ =>
    (simulates_symbol (simulation_marked tokens c p) _).bind fun _ _ _ => simulates_create_marked _ _

theorem LoopsTo.marks {r : Rule NodeId} {step : NodeId → Rule NodeId} (h : LoopsTo tokens r step i e m)
    (hstep : ∀ left, Marks tokens c p (step left) m) (hk : KeepsAll tokens c p step) :
    Marks tokens c p r i := fun run =>
  h run _ _ _ fun run' _ => Marks.iterate hstep hk _ run'

/-- An operator leaves the marks of its right operand. -/
theorem marks_operation_of_right (ht : tokens[m]? = some t) (h : Marks tokens c p right (m + 1)) (o : Operator)
    (left : NodeId) : Marks tokens c p (operation (Class.ofKind t.kind) o right left) m :=
  Marks.matched_bind (fun _ => ⟨_, _, matches_symbol ht rfl⟩) fun _ => h.bind (keepsAll_create _)

theorem marks_operation_of_symbol (h : ∀ t, tokens[p]? = some t → Class.ofKind t.kind ≠ c)
    (hright : Keeps tokens c p right) (o : Operator) (left : NodeId) : Marks tokens c p (operation c o right left) p :=
  (marks_symbol h).bind fun _ _ => hright.bind (keepsAll_create _)

/-- The operators of a product leave the marks of one of them where no other stands. -/
theorem marks_productStep (ho : k.multiplicative? = some o)
    (hm : ∀ t, tokens[m]? = some t → t.kind = k ∨ t.kind.multiplicative? = none)
    (h : ∀ o left, Marks tokens c p (operation (Class.ofKind k) o (factor (inner n)) left) m) (left : NodeId) :
    Marks tokens c p (productStep (inner n) left) m := by
  rcases Kind.multiplicative?_eq_some.mp ho with ⟨hc, rfl⟩ | ⟨hc, rfl⟩ <;> rw [hc] at h
  · exact (h .mul left).orElse (keepsAll_operation _ _ (keeps_factor n) left left)
  · refine Marks.or (misses_operation (fun t ht hstar => ?_) _ left) (h .div left)
    rcases hm t ht with hk | hnone
    · rw [hk, hc] at hstar
      cases hstar
    · exact (Kind.multiplicative?_eq_none.mp hnone).1 hstar

theorem marks_sumStep (ho : k.additive? = some o)
    (hm : ∀ t, tokens[m]? = some t → t.kind = k ∨ t.kind.additive? = none)
    (h : ∀ o left, Marks tokens c p (operation (Class.ofKind k) o (product (inner n)) left) m) (left : NodeId) :
    Marks tokens c p (sumStep (inner n) left) m := by
  have hproduct : Keeps tokens c p (productStep (inner n) left) := keepsAll_productStep n left left
  rcases Kind.additive?_eq_some.mp ho with ⟨hc, rfl⟩ | ⟨hc, rfl⟩ <;> rw [hc] at h
  · exact (h .add left).orElse (Simulates.orElse (keepsAll_operation _ _ (keeps_product n) left left) hproduct)
  · refine Marks.or (misses_operation (fun t ht hplus => ?_) _ left) ((h .sub left).orElse hproduct)
    rcases hm t ht with hk | hnone
    · rw [hk, hc] at hplus
      cases hplus
    · exact (Kind.additive?_eq_none.mp hnone).1 hplus

/-- In a sum the operators of a product leave their marks where none of a sum stands. -/
theorem marks_sumStep_of_productStep (hm : NoAdditive tokens m) {left : NodeId}
    (h : Marks tokens c p (productStep (inner n) left) m) : Marks tokens c p (sumStep (inner n) left) m := by
  have hclass : ∀ t, tokens[m]? = some t → Class.ofKind t.kind ≠ .plus ∧ Class.ofKind t.kind ≠ .minus :=
    fun t ht => Kind.additive?_eq_none.mp (hm t ht)
  exact Marks.or (misses_operation (fun t ht => (hclass t ht).1) _ left)
    (Marks.or (misses_operation (fun t ht => (hclass t ht).2) _ left) h)

/-! An operator is missing, or something in its right operand is. -/

theorem NoMultiplicative.class_ne (h : NoMultiplicative tokens p) (ho : t.kind.multiplicative? = some o) :
    ∀ t', tokens[p]? = some t' → Class.ofKind t'.kind ≠ Class.ofKind t.kind := by
  intro t' ht' hc
  obtain ⟨hstar, hslash⟩ := Kind.multiplicative?_eq_none.mp (h t' ht')
  rcases Kind.multiplicative?_eq_some.mp ho with ⟨hk, -⟩ | ⟨hk, -⟩
  · exact hstar (hc.trans hk)
  · exact hslash (hc.trans hk)

theorem NoAdditive.class_ne (h : NoAdditive tokens p) (ho : t.kind.additive? = some o) :
    ∀ t', tokens[p]? = some t' → Class.ofKind t'.kind ≠ Class.ofKind t.kind := by
  intro t' ht' hc
  obtain ⟨hplus, hminus⟩ := Kind.additive?_eq_none.mp (h t' ht')
  rcases Kind.additive?_eq_some.mp ho with ⟨hk, -⟩ | ⟨hk, -⟩
  · exact hplus (hc.trans hk)
  · exact hminus (hc.trans hk)

theorem marks_productStep_of_noMultiplicative (h : NoMultiplicative tokens p) (ho : t.kind.multiplicative? = some o)
    (left : NodeId) : Marks tokens (Class.ofKind t.kind) p (productStep (inner n) left) p :=
  marks_productStep ho (fun t' ht' => .inr (h t' ht')) (marks_operation_of_symbol (h.class_ne ho) (keeps_factor n)) left

theorem marks_productStep_of_factor (ht : tokens[m]? = some t) (ho : t.kind.multiplicative? = some o)
    (h : Marks tokens c p (factor (inner n)) (m + 1)) (left : NodeId) :
    Marks tokens c p (productStep (inner n) left) m := by
  refine marks_productStep ho (fun t' ht' => .inl ?_) (marks_operation_of_right ht h) left
  rw [Option.some.inj (ht'.symm.trans ht)]

theorem marks_sumStep_of_noAdditive (h : NoAdditive tokens p) (ho : t.kind.additive? = some o) (left : NodeId) :
    Marks tokens (Class.ofKind t.kind) p (sumStep (inner n) left) p :=
  marks_sumStep ho (fun t' ht' => .inr (h t' ht')) (marks_operation_of_symbol (h.class_ne ho) (keeps_product n)) left

theorem marks_sumStep_of_product (ht : tokens[m]? = some t) (ho : t.kind.additive? = some o)
    (h : Marks tokens c p (product (inner n)) (m + 1)) (left : NodeId) :
    Marks tokens c p (sumStep (inner n) left) m := by
  refine marks_sumStep ho (fun t' ht' => .inl ?_) (marks_operation_of_right ht h) left
  rw [Option.some.inj (ht'.symm.trans ht)]

/-! Parentheses and signs -/

/-- Inside of parentheses their contents are marked, and where these end the closing one. -/
theorem marks_atom_of_paren (ht : tokens[i]? = some t) (hk : t.kind = .leftParen)
    (h : Marks tokens c p (inner n .sum) (i + 1) ∨
      c = .rightParen ∧ Builds tokens (inner n .sum) (i + 1) e p ∧
        ∀ t', tokens[p]? = some t' → Class.ofKind t'.kind ≠ .rightParen) :
    Marks tokens c p (atom (inner n)) i := by
  have hc : Class.ofKind t.kind = .leftParen := by rw [hk]; rfl
  refine Marks.or (fun _ => misses_leaf (class_ne_of_getElem? ht hc (by decide))) ?_
  refine Marks.or (fun _ => misses_leaf (class_ne_of_getElem? ht hc (by decide))) ?_
  refine Marks.matched_bind (fun _ => ⟨_, _, matches_symbol ht hc⟩) fun _ => ?_
  have hsim := simulation_marked tokens c p
  rcases h with h | ⟨rfl, hbuilds, hclose⟩
  · exact h.bind fun _ _ => (simulates_symbol hsim _).bind fun _ _ _ => simulates_create_marked _ _
  · exact Marks.matched_bind (fun run => ⟨_, _, hbuilds run⟩) fun _ =>
      (marks_symbol hclose).bind fun _ _ => simulates_create_marked _ _

theorem marks_factor_of_minus (ht : tokens[i]? = some t) (hk : t.kind = .minus)
    (h : Marks tokens c p (inner n .factor) (i + 1)) : Marks tokens c p (factor (inner n)) i := by
  refine Marks.orElse ?_ (keeps_atom n)
  exact Marks.matched_bind (fun _ => ⟨_, _, matches_symbol ht (by rw [hk]; rfl)⟩) fun _ => h.bind (keepsAll_create _)

theorem marks_factor_of_atom (hminus : ∀ t, tokens[i]? = some t → t.kind ≠ .minus)
    (h : Marks tokens c p (atom (inner n)) i) : Marks tokens c p (factor (inner n)) i :=
  Marks.or (fun _ => (misses_symbol fun t ht hc => hminus t ht (Class.eq_kind (c := .minus) hc (by decide))).bind) h

end Levels

end Formula.Grammar
