import Formula.Proofs.Arena.Shape
import Formula.Proofs.Grammar.Depth
import Formula.Proofs.Grammar.Recognition

/-!
# The grammar makes well-shaped nodes

Whatever becomes of it, a rule of the grammar leaves the arena well shaped, and what a rule matches binds as tight as
its level says (`shapes_expression`). The one step that is not local is again the operator of a product in a sum: behind
a sum `a + b` it would make a node with a left operand that binds looser. But `b` has taken all operators of a product
that it could, so there the operator finds no right operand and makes nothing (`SumRoot`).
-/

namespace Formula.Grammar

open Rule hiding pure bind

section

variable (tokens : Array Token)

/-- The arena is well shaped and has the leaves that the tokens came with, names those of identifiers. -/
structure Ready (a : Arena) : Prop where
  shaped : a.WellShaped
  leaf {t : Token} {id : NodeId} : t ∈ tokens → leaf? t = some id → a.Holds Node.isLeaf id
  name {t : Token} {id : NodeId} : t ∈ tokens → t.kind = .identifier → t.payload = some id → a.Holds Node.isName id

/-- One arena comes from the other through nodes that fit. -/
structure Grows (a b : Arena) : Prop where
  extends' : a.Extends b
  ready : Ready tokens b

/-- The rule makes nodes that fit, and what it matches is admitted at the level. -/
def Shapes (l : Level) (r : Rule NodeId) : Prop :=
  ∀ i run, Ready tokens run.arena → Meets tokens r i run
    (fun x _ run' => Grows tokens run.arena run'.arena ∧ run'.arena.Holds l.admits x)
    (fun run' => Grows tokens run.arena run'.arena) True

variable {tokens} {a b c : Arena} {node : Node} {l : Level} {x : NodeId}

theorem Ready.of_extends (h : Ready tokens a) (hb : a.Extends b) (hs : b.WellShaped) : Ready tokens b :=
  ⟨hs, fun ht hid => (h.leaf ht hid).extends hb, fun ht hk hp => (h.name ht hk hp).extends hb⟩

theorem Ready.grows (h : Ready tokens a) : Grows tokens a a := ⟨a.extends_refl, h⟩

theorem Grows.trans (h : Grows tokens a b) (h' : Grows tokens b c) : Grows tokens a c :=
  ⟨h.extends'.trans h'.extends', h'.ready⟩

theorem Grows.push (h : Grows tokens a b) (hn : node.Fits b) : Grows tokens a (b.push node) := by
  have hpush := b.extends_push node
  exact ⟨h.extends'.trans hpush, h.ready.of_extends hpush (h.ready.shaped.push hn)⟩

theorem shapes_exhausted : Shapes tokens l Rule.exhausted := fun _ _ _ => meets_exhausted trivial

end

section Levels

variable {tokens : Array Token} {enter : Level → Rule NodeId}

theorem shapes_atom (h : Shapes tokens .sum (enter .sum)) : Shapes tokens .factor (atom enter) := by
  intro i run hr
  apply meets_atom
  · intro t id run' ha ht hv hp
    have hleaf := hr.leaf (Array.mem_of_getElem? ht) ((if_pos hv).trans hp)
    rw [ha]
    exact ⟨hr.grows, hleaf.mono fun _ => Level.admits_of_isLeaf _⟩
  · intro t run' ha _ _
    rw [← ha] at hr ⊢
    refine (h (i + 1) run' hr).mono ?_ (fun _ => id) id
    rintro x j run₁ ⟨hg, hx⟩
    have hfits : (Node.paren x).Fits run₁.arena := hx
    exact ⟨fun _ _ _ => ⟨hg.push hfits, run₁.arena.holds_push_nextId rfl⟩, hg⟩
  · intro run' ha
    rw [ha]
    exact hr.grows

theorem shapes_factor (h : Shapes tokens .sum (enter .sum)) (h' : Shapes tokens .factor (enter .factor)) :
    Shapes tokens .factor (factor enter) := by
  intro i run hr
  apply meets_factor
  · intro t _ _
    refine (h' (i + 1) run hr).mono ?_ ?_ id
    · rintro x j run' ⟨hg, hx⟩
      have hfits : (Node.negation x).Fits run'.arena := hx
      exact ⟨hg.push hfits, run'.arena.holds_push_nextId rfl⟩
    · intro run' hg
      exact (shapes_atom h i run' hg.ready).mono (fun _ _ _ ⟨hg', hx⟩ => ⟨hg.trans hg', hx⟩)
        (fun _ hg' => hg.trans hg') id
  · intro run' ha
    rw [← ha] at hr ⊢
    exact shapes_atom h i run' hr

/-- All that the rule makes behind the arena fits, and what it matches is admitted at the level and ends at a position
of which the property holds. -/
def ShapesTo (tokens : Array Token) (a : Arena) (P : Nat → Prop) (l : Level) (r : Rule NodeId) (i : Nat) (run : Run) :
    Prop :=
  Meets tokens r i run (fun x j run' => P j ∧ Grows tokens a run'.arena ∧ run'.arena.Holds l.admits x)
    (fun run' => Grows tokens a run'.arena) True

variable {P : Nat → Prop} {a : Arena} {i : Nat} {run run' : Run} {left : NodeId}

theorem ShapesTo.of_grows {l : Level} {r : Rule NodeId} (h : ShapesTo tokens run.arena P l r i run)
    (hg : Grows tokens a run.arena) : ShapesTo tokens a P l r i run :=
  Meets.mono h (fun _ _ _ ⟨hj, hg', hx⟩ => ⟨hj, hg.trans hg', hx⟩) (fun _ hg' => hg.trans hg') id

/-- What an operator makes fits if its left operand is admitted at its level. -/
theorem shapes_operation {right : Rule NodeId} {o : Operator} (c : Class) (hr : Ready tokens run.arena)
    (hleft : run.arena.Holds o.level.admits left)
    (h : ShapesTo tokens run.arena P o.level.tighter right (i + 1) run) :
    ShapesTo tokens run.arena P o.level (operation c o right left) i run := by
  refine meets_operation (fun t _ _ => Meets.mono h ?_ (fun _ => id) id) fun _ => hr.grows
  rintro x j run' ⟨hj, hg, hx⟩
  have hfits : (Node.binary o left x).Fits run'.arena := ⟨hleft.extends hg.extends', hx⟩
  exact ⟨hj, hg.push hfits, run'.arena.holds_push_nextId (o.level_admits left x)⟩

section

variable (hrec : Recognizes tokens .factor (factor enter)) (h : Shapes tokens .factor (factor enter))
include hrec h

theorem shapes_productStep (hr : Ready tokens run.arena) (hleft : run.arena.Holds (Level.admits .product) left) :
    ShapesTo tokens run.arena (fun j => i < j ∧ j ≤ tokens.size) .product (productStep enter left) i run := by
  have hright : ∀ run, Ready tokens run.arena →
      ShapesTo tokens run.arena (fun j => i < j ∧ j ≤ tokens.size) .factor (factor enter) (i + 1) run :=
    fun run hr => by
    refine ((hrec (i + 1) run).and (h (i + 1) run hr)).mono ?_ (fun _ => And.right) fun _ => trivial
    rintro x j run' ⟨⟨w, e, hw, he⟩, hx⟩
    exact ⟨⟨hw.le, hw.le_size he.ne_nil⟩, hx⟩
  refine Meets.orElse (Meets.mono (shapes_operation (o := .mul) _ hr hleft (hright run hr)) (fun _ _ _ => id) ?_ id)
  intro run' hg
  have hleft' := hleft.extends hg.extends'
  exact (shapes_operation (o := .div) _ hg.ready hleft' (hright run' hg.ready)).of_grows hg

theorem shapes_product : Shapes tokens .product (product enter) := by
  intro i run hr
  refine Meets.bind ((h i run hr).mono ?_ (fun _ => id) id)
  rintro x j run' ⟨hg, hx⟩
  refine Meets.iterate (fun x _ run' => Grows tokens run.arena run'.arena ∧ run'.arena.Holds (Level.admits .product) x)
    ?_ ⟨hg, hx.mono fun _ => Level.admits_of_factor _⟩
  rintro x j run' ⟨hg, hx⟩
  refine Meets.mono (shapes_productStep hrec h hg.ready hx) ?_ ?_ id
  · rintro y k run'' ⟨⟨hjk, hk⟩, hg', hy⟩
    exact ⟨hjk, hk, hg.trans hg', hy⟩
  · exact fun run'' hg' => ⟨hg.trans hg', hx.extends hg'.extends'⟩

variable (hb : Blind tokens enter)
include hb

/-- An operator of a sum with a product behind it, which leaves no operator of a product behind. -/
theorem shapes_sumOperation {o : Operator} (ho : o.level = .sum) (c : Class) (hr : Ready tokens run.arena)
    (hleft : run.arena.Holds (Level.admits .sum) left) :
    ShapesTo tokens run.arena
      (fun j => (i < j ∧ j ≤ tokens.size) ∧ ∀ left, Fails tokens (productStep enter left) j) .sum
      (operation c o (product enter) left) i run := by
  rw [← ho] at hleft ⊢
  refine shapes_operation c hr hleft ?_
  rw [ho]
  refine ((recognizes_product hb hrec (i + 1) run).and (shapes_product hrec h (i + 1) run hr)).mono ?_
    (fun _ => And.right) fun _ => trivial
  rintro x j run' ⟨⟨⟨w, e, hw, he⟩, hfails⟩, hx⟩
  exact ⟨⟨⟨hw.le, hw.le_size he.ne_nil⟩, hfails⟩, hx⟩

/-- What a sum has made so far: a product, or a sum that has left no operator of a product behind. -/
def SumRoot (tokens : Array Token) (enter : Level → Rule NodeId) (a : Arena) (x : NodeId) (j : Nat) : Prop :=
  a.Holds (Level.admits .product) x ∨
    a.Holds (Level.admits .sum) x ∧ ∀ left, Fails tokens (productStep enter left) j

omit hrec h hb in
theorem SumRoot.holds {x : NodeId} {j : Nat} (h : SumRoot tokens enter a x j) : a.Holds (Level.admits .sum) x :=
  h.elim (fun h => h.mono fun _ => Level.admits_of_tighter (l := .sum)) And.left

omit hrec h hb in
theorem SumRoot.extends {b : Arena} {x : NodeId} {j : Nat} (h : SumRoot tokens enter a x j) (hb : a.Extends b) :
    SumRoot tokens enter b x j :=
  h.imp (fun h => h.extends hb) fun h => ⟨h.1.extends hb, h.2⟩

omit hrec hb in
/-- Where the operators of a product are sure to fail, they make no node that does not fit, whatever is to the left. -/
theorem grows_productStep_of_fails (hr : Ready tokens run.arena)
    (hfails : ∀ left, Fails tokens (productStep enter left) i) (left : NodeId) :
    Meets tokens (productStep enter left) i run (fun _ _ _ => False) (fun run' => Grows tokens run.arena run'.arena)
      True := by
  have hoperation : ∀ c o (run₁ : Run), Grows tokens run.arena run₁.arena →
      Meets tokens (operation c o (factor enter) left) i run₁ (fun _ _ _ => True)
        (fun run' => Grows tokens run.arena run'.arena) True := fun c o run₁ hg =>
    meets_operation (fun _ _ _ => (h (i + 1) run₁ hg.ready).mono (fun _ _ _ _ => trivial) (fun _ => hg.trans) id)
      fun _ => hg
  have hstep := Meets.orElse ((hoperation .star .mul run hr.grows).mono (fun _ _ _ => id)
    (hoperation .slash .div) id)
  refine Meets.remember (hstep.mono (fun x j run' _ hmatched => ?_) (fun _ hg _ => hg) id)
  have hfailed := hfails left run
  rw [hmatched] at hfailed
  cases hfailed

theorem shapes_sumStep (hr : Ready tokens run.arena) (hs : SumRoot tokens enter run.arena left i) :
    Meets tokens (sumStep enter left) i run
      (fun x j run' => (i < j ∧ j ≤ tokens.size) ∧ Grows tokens run.arena run'.arena ∧
        SumRoot tokens enter run'.arena x j)
      (fun run' => Grows tokens run.arena run'.arena) True := by
  refine Meets.orElse ((shapes_sumOperation hrec h hb (o := .add) rfl _ hr hs.holds).mono ?_ ?_ id)
  · rintro x j run' ⟨⟨hj, hfails⟩, hg, hx⟩
    exact ⟨hj, hg, .inr ⟨hx, hfails⟩⟩
  intro run₁ hg₁
  have hs₁ := hs.extends hg₁.extends'
  have hminus := (shapes_sumOperation hrec h hb (o := .sub) rfl .minus hg₁.ready hs₁.holds (i := i)).of_grows hg₁
  refine Meets.orElse (Meets.mono hminus ?_ ?_ id)
  · rintro x j run' ⟨⟨hj, hfails⟩, hg, hx⟩
    exact ⟨hj, hg, .inr ⟨hx, hfails⟩⟩
  intro run₂ hg₂
  rcases hs.extends hg₂.extends' with hproduct | ⟨-, hfails⟩
  · refine Meets.mono ((shapes_productStep hrec h hg₂.ready hproduct).of_grows hg₂) ?_ (fun _ => id) id
    exact fun x j run' ⟨hj, hg, hx⟩ => ⟨hj, hg, .inl hx⟩
  · exact (grows_productStep_of_fails h hg₂.ready hfails left).mono (fun _ _ _ => False.elim)
      (fun _ hg => hg₂.trans hg) id

theorem shapes_sum : Shapes tokens .sum (sum enter) := by
  intro i run hr
  refine Meets.bind ((h i run hr).mono ?_ (fun _ => id) id)
  rintro x j run' ⟨hg, hx⟩
  refine Meets.iterate (fun x j run' => Grows tokens run.arena run'.arena ∧ SumRoot tokens enter run'.arena x j)
    ?_ ⟨hg, .inl (hx.mono fun _ => Level.admits_of_factor _)⟩
  rintro x j run' ⟨hg, hs⟩
  refine (shapes_sumStep hrec h hb hg.ready hs).mono ?_ ?_ id
  · rintro y k run'' ⟨⟨hjk, hk⟩, hg', hs'⟩
    exact ⟨hjk, hk, hg.trans hg', hs'⟩
  · exact fun run'' hg' => ⟨hg.trans hg', (hs.extends hg'.extends').holds⟩

end

end Levels

/-- Sums and factors are well shaped, however deep they may nest. -/
theorem shapes_expression (tokens : Array Token) (n : Nat) :
    Shapes tokens .sum (expression n .sum) ∧ Shapes tokens .factor (expression n .factor) := by
  have hlevel : ∀ n, Shapes tokens .factor (factor (inner n)) →
      Shapes tokens .sum (expression n .sum) ∧ Shapes tokens .factor (expression n .factor) := by
    intro n h
    have hrec := (recognizes_expression tokens n).2
    rw [expression_eq] at hrec ⊢
    rw [expression_eq]
    exact ⟨shapes_sum hrec h (inner_blind tokens n), h⟩
  induction n with
  | zero => exact hlevel 0 (shapes_factor shapes_exhausted shapes_exhausted)
  | succ n ih => exact hlevel (n + 1) (shapes_factor ih.1 ih.2)

/-! ## Programs -/

section Statements

variable {tokens : Array Token} {expr : Rule NodeId} {run : Run}
variable (hrec : Recognizes tokens .expr expr) (h : Shapes tokens .sum expr)

include h in
theorem shapes_statement (i : Nat) (hr : Ready tokens run.arena) :
    Meets tokens (statement expr) i run
      (fun x _ run' => Grows tokens run.arena run'.arena ∧ run'.arena.Holds Node.isStatement x)
      (fun run' => Grows tokens run.arena run'.arena) True := by
  have hexpr : ∀ run', Grows tokens run.arena run'.arena → Meets tokens expr i run'
      (fun x _ run₁ => Grows tokens run.arena run₁.arena ∧ run₁.arena.Holds Node.isStatement x)
      (fun run₁ => Grows tokens run.arena run₁.arena) True := fun run' hg =>
    (h i run' hg.ready).mono (fun _ _ _ ⟨hg', hx⟩ => ⟨hg.trans hg', hx.mono fun _ => Level.isStatement_of_admits⟩)
      (fun _ hg' => hg.trans hg') id
  apply meets_statement
  · intro t target t' ht hk hp _ _
    refine (h (i + 1 + 1) run hr).mono ?_ hexpr id
    rintro x j run' ⟨hg, hx⟩
    have htarget := (hr.name (Array.mem_of_getElem? ht) hk hp).extends hg.extends'
    have hfits : (Node.assignment target x).Fits run'.arena := ⟨htarget, hx⟩
    exact ⟨hg.push hfits, run'.arena.holds_push_nextId rfl⟩
  · exact fun run' ha => hexpr run' (ha ▸ hr.grows)

include hrec h in
theorem shapes_statements (i : Nat) (hr : Ready tokens run.arena) :
    Meets tokens (statements expr) i run
      (fun items _ run' => Grows tokens run.arena run'.arena ∧ items ≠ [] ∧
        ∀ x ∈ items, run'.arena.Holds Node.isStatement x)
      (fun run' => Grows tokens run.arena run'.arena) True := by
  apply meets_statements fun items _ run' => Grows tokens run.arena run'.arena ∧ items ≠ [] ∧
    ∀ x ∈ items, run'.arena.Holds Node.isStatement x
  · refine (shapes_statement h i hr).mono ?_ (fun _ => id) id
    exact fun x j run' ⟨hg, hx⟩ => ⟨hg, by simp, by simpa using hx⟩
  · rintro items j run' t ⟨hg, hne, hitems⟩ ht hk
    refine ((recognizes_statement hrec (j + 1) run').and (shapes_statement h (j + 1) hg.ready)).mono ?_ ?_
      fun _ => trivial
    · rintro x k run₁ ⟨⟨w, s, hw, hs⟩, hg', hx⟩
      have hread := Reads.cons ht hw
      have hitems' := fun y hy => (hitems y hy).extends hg'.extends'
      exact ⟨hw.le, hread.le_size (by simp), hg.trans hg', by simp, List.forall_mem_cons.mpr ⟨hx, hitems'⟩⟩
    · rintro run₁ ⟨-, hg'⟩
      refine ⟨hg.trans hg', by simpa using hne, fun x hx => ?_⟩
      exact (hitems x (List.mem_reverse.mp hx)).extends hg'.extends'
  · rintro items j run' run₁ ⟨hg, hne, hitems⟩ ha
    rw [ha]
    exact ⟨hg, by simpa using hne, fun x hx => hitems x (List.mem_reverse.mp hx)⟩

include hrec h in
theorem shapes_program (hr : Ready tokens run.arena) :
    Meets tokens (program expr) 0 run (fun _ _ run' => Grows tokens run.arena run'.arena)
      (fun run' => Grows tokens run.arena run'.arena) True := by
  apply meets_program
  refine (shapes_statements hrec h 0 hr).mono ?_ (fun _ => id) id
  rintro items j run' ⟨hg, hne, hitems⟩ k run₁ ha -
  rw [ha]
  refine ⟨fun _ => hg, fun _ => ⟨fun _ _ => ha ▸ hg, fun hlength => ?_⟩⟩
  have htwo : 2 ≤ items.length := by
    have := List.length_pos_iff.mpr hne
    omega
  have hfits : (Node.sequence items).Fits run'.arena := ⟨htwo, hitems⟩
  have hpush := hg.push hfits
  rwa [← ha] at hpush

end Statements

variable {tokens : Array Token} {a : Arena}

/-- A run leaves its arena well shaped, whether it reads a program or fails. -/
theorem grows_run (h : Ready tokens a) (probe : Probe) : Grows tokens a (run tokens a probe).2.arena := by
  have hr : Ready tokens (Run.mk a probe).arena := h
  have hmeets := shapes_program (recognizes_expression tokens tokens.size).1 (shapes_expression tokens tokens.size).1 hr
  have hne := run_ne_exhausted tokens a probe
  unfold run at hne ⊢
  unfold Meets at hmeets
  split at hmeets <;> rename_i heq <;> rw [heq] at hne ⊢
  · exact hmeets
  · exact hmeets
  · exact absurd rfl hne

/-- Both runs leave the arena well shaped. -/
theorem grows_read (h : Ready tokens a) : Grows tokens a (read tokens a).2 := by
  have hfirst := grows_run h (.locate 0)
  unfold read
  split
  · rename_i heq
    rwa [heq] at hfirst
  · rename_i first _ heq
    rw [heq] at hfirst
    have hfirst : Grows tokens a first.arena := hfirst
    exact hfirst.trans (grows_run hfirst.ready _)

end Formula.Grammar
