import Mathlib.Data.List.Forall2
import Formula.Proofs.Grammar.Meets

/-!
# Rules side by side

Two rules run on tokens of the same kinds from runs that are related by `S`. `Simulates` says that they take the same
course: they end in the same way at the same position, with values related by `V` and with related runs again. A rule
that is exhausted promises nothing, so a grammar is simulated by the same grammar with a larger bound
(`simulates_expression`).

What relates runs and nodes is a `Simulation` if marks and new nodes keep it. Two instances are used below, both with
the same tokens on either side: equality, for which an outcome within the bound is the outcome under every larger one
(`program_eq_of_le`), and no relation at all, which says that what rules match never depends on the run (`inner_blind`).
-/

namespace Formula.Grammar

open Rule hiding pure bind

/-- Nodes of one form whose children are related. -/
inductive Corresponds (V : NodeId → NodeId → Prop) : Node → Node → Prop
  | paren {x y : NodeId} : V x y → Corresponds V (.paren x) (.paren y)
  | negation {x y : NodeId} : V x y → Corresponds V (.negation x) (.negation y)
  | binary {x y x' y' : NodeId} (o : Operator) : V x y → V x' y' → Corresponds V (.binary o x x') (.binary o y y')
  | assignment {x y x' y' : NodeId} : V x y → V x' y' → Corresponds V (.assignment x x') (.assignment y y')
  | sequence {xs ys : List NodeId} : List.Forall₂ V xs ys → Corresponds V (.sequence xs) (.sequence ys)

/-- The end of one rule and the end of another that took the same course. -/
inductive Follows {α β : Type} (S : Run → Run → Prop) (V : α → β → Prop) : Outcome α × Run → Outcome β × Run → Prop
  | matched {a : α} {b : β} {s s' : Run} (j : Nat) : V a b → S s s' → Follows S V (.matched a j, s) (.matched b j, s')
  | failed {s s' : Run} : S s s' → Follows S V (.failed, s) (.failed, s')
  | exhausted {s : Run} {e : Outcome β × Run} : Follows S V (.exhausted, s) e

section Operators

variable {α β α' β' : Type} (tokens tokens' : Array Token) (S : Run → Run → Prop)

/-- From related runs both rules take the same course. -/
def Simulates (V : α → β → Prop) (r : Rule α) (r' : Rule β) : Prop :=
  ∀ i s s', S s s' → Follows S V (r tokens i s) (r' tokens' i s')

variable {tokens tokens' S} {V : α → β → Prop} {W : α' → β' → Prop} {r : Rule α} {r' : Rule β}

theorem simulates_exhausted : Simulates tokens tokens' S V Rule.exhausted r' :=
  fun _ _ _ _ => .exhausted

theorem simulates_pure {a : α} {b : β} (h : V a b) : Simulates tokens tokens' S V (pure a : Rule α) (pure b : Rule β) :=
  fun i _ _ hs => .matched i h hs

theorem Simulates.bind {f : α → Rule α'} {g : β → Rule β'} (h : Simulates tokens tokens' S V r r')
    (hf : ∀ a b, V a b → Simulates tokens tokens' S W (f a) (g b)) :
    Simulates tokens tokens' S W (r >>= f) (r' >>= g) := by
  intro i s s' hs
  have hr := h i s s' hs
  cases he : r tokens i s with
  | mk o t =>
    cases he' : r' tokens' i s' with
    | mk o' t' =>
      rw [he, he'] at hr
      cases hr with
      | matched j hv ht =>
        rw [bind_matched f he, bind_matched g he']
        exact hf _ _ hv j t t' ht
      | failed ht =>
        rw [bind_failed f he, bind_failed g he']
        exact .failed ht
      | exhausted =>
        rw [bind_exhausted f he]
        exact .exhausted

theorem Simulates.orElse {q : Rule α} {q' : Rule β} (h : Simulates tokens tokens' S V r r')
    (hq : Simulates tokens tokens' S V q q') : Simulates tokens tokens' S V (r <|> q) (r' <|> q') := by
  intro i s s' hs
  have hr := h i s s' hs
  cases he : r tokens i s with
  | mk o t =>
    cases he' : r' tokens' i s' with
    | mk o' t' =>
      rw [he, he'] at hr
      cases hr with
      | matched j hv ht =>
        rw [orElse_matched q he, orElse_matched q' he']
        exact .matched j hv ht
      | failed ht =>
        rw [orElse_failed q he, orElse_failed q' he']
        exact hq i t t' ht
      | exhausted =>
        rw [orElse_exhausted q he]
        exact .exhausted

theorem Simulates.iterate (hsize : tokens.size = tokens'.size) {step : α → Rule α} {step' : β → Rule β}
    (h : ∀ a b, V a b → Simulates tokens tokens' S V (step a) (step' b)) {a : α} {b : β} (hv : V a b) :
    Simulates tokens tokens' S V (iterate step a) (iterate step' b) := by
  intro i
  induction hn : tokens.size - i using Nat.strongRecOn generalizing a b i with
  | _ n ih =>
    intro s s' hs
    have hr := h a b hv i s s' hs
    rw [Rule.iterate, Rule.iterate]
    cases he : step a tokens i s with
    | mk o t =>
      cases he' : step' b tokens' i s' with
      | mk o' t' =>
        rw [he, he'] at hr
        cases hr with
        | matched j hv' ht =>
          dsimp only
          rw [← hsize]
          split
          · exact ih (tokens.size - j) (by omega) hv' j rfl t t' ht
          · exact .matched j hv' ht
        | failed ht => exact .matched i hv ht
        | exhausted => exact .exhausted

theorem simulates_atEnd (hsize : tokens.size = tokens'.size) :
    Simulates tokens tokens' S (fun _ _ => True) atEnd atEnd := by
  intro i s s' hs
  unfold atEnd
  rw [← hsize]
  split
  · exact .failed hs
  · exact .matched i trivial hs

end Operators

/-- Tokens of one kind, with leaves that are related if there are any. -/
structure Agree (V : NodeId → NodeId → Prop) (t t' : Token) : Prop where
  kind : t.kind = t'.kind
  payload : Option.Rel V t.payload t'.payload

theorem Agree.refl {V : NodeId → NodeId → Prop} (h : ∀ id, V id id) (t : Token) : Agree V t t := by
  refine ⟨rfl, ?_⟩
  cases t.payload with
  | none => exact .none
  | some id => exact .some (h id)

/-- Relations that are kept by everything that rules do to a run, and that hold of the leaves of all tokens. -/
structure Simulation (tokens tokens' : Array Token) (S : Run → Run → Prop) (V : NodeId → NodeId → Prop) : Prop where
  mark {s s' : Run} (c : Class) (i : Nat) : S s s' → S (s.mark c i) (s'.mark c i)
  agree : List.Forall₂ (Agree V) tokens.toList tokens'.toList
  create {s s' : Run} {node node' : Node} :
    Corresponds V node node' → S s s' → V s.arena.nextId s'.arena.nextId ∧ S (s.push node) (s'.push node')

section Grammar

variable {tokens tokens' : Array Token} {S : Run → Run → Prop} {V : NodeId → NodeId → Prop}

theorem rel_getElem? {l l' : List Token} (h : List.Forall₂ (Agree V) l l') (i : Nat) :
    Option.Rel (Agree V) l[i]? l'[i]? := by
  induction h generalizing i with
  | nil => exact .none
  | cons ht _ ih =>
    cases i with
    | zero => exact .some ht
    | succ i => exact ih i

variable (hsim : Simulation tokens tokens' S V)
include hsim

theorem Simulation.size_eq : tokens.size = tokens'.size := hsim.agree.length_eq

theorem simulates_token {α : Type} {U : α → α → Prop} {c : Class} {value? : Token → Option α}
    (h : ∀ t t', Agree V t t' → Option.Rel U (value? t) (value? t')) :
    Simulates tokens tokens' S U (token c value?) (token c value?) := by
  intro i s s' hs
  have hrel : Option.Rel U (tokens[i]?.bind value?) (tokens'[i]?.bind value?) := by
    have ht := rel_getElem? hsim.agree i
    rw [← Array.getElem?_toList, ← Array.getElem?_toList]
    generalize tokens.toList[i]? = t, tokens'.toList[i]? = t' at ht ⊢
    cases ht with
    | none => exact .none
    | some ht => exact h _ _ ht
  unfold token
  generalize tokens[i]?.bind value? = o, tokens'[i]?.bind value? = o' at hrel
  cases hrel with
  | none => exact .failed (hsim.mark c i hs)
  | some hv => exact .matched (i + 1) hv hs

theorem simulates_symbol (c : Class) : Simulates tokens tokens' S (fun _ _ => True) (symbol c) (symbol c) :=
  simulates_token hsim fun t t' ht => by
    rw [ht.kind]
    split
    · exact .some trivial
    · exact .none

theorem simulates_leaf (c : Class) : Simulates tokens tokens' S V (leaf c) (leaf c) :=
  simulates_token hsim fun t t' ht => by
    rw [ht.kind]
    split
    · exact ht.payload
    · exact .none

theorem simulates_create {node node' : Node} (h : Corresponds V node node') :
    Simulates tokens tokens' S V (create node) (create node') :=
  fun i _ _ hs => .matched i (hsim.create h hs).1 (hsim.create h hs).2

theorem simulates_operation (c : Class) (o : Operator) {right right' : Rule NodeId} {left left' : NodeId}
    (h : Simulates tokens tokens' S V right right') (hl : V left left') :
    Simulates tokens tokens' S V (operation c o right left) (operation c o right' left') :=
  (simulates_symbol hsim c).bind fun _ _ _ => h.bind fun _ _ hv => simulates_create hsim (.binary o hl hv)

section Levels

variable {enter enter' : Level → Rule NodeId} (henter : ∀ l, Simulates tokens tokens' S V (enter l) (enter' l))
include henter

theorem simulates_atom : Simulates tokens tokens' S V (atom enter) (atom enter') := by
  refine (simulates_leaf hsim _).orElse ((simulates_leaf hsim _).orElse ?_)
  refine (simulates_symbol hsim _).bind fun _ _ _ => (henter _).bind fun _ _ hv => ?_
  exact (simulates_symbol hsim _).bind fun _ _ _ => simulates_create hsim (.paren hv)

theorem simulates_factor : Simulates tokens tokens' S V (factor enter) (factor enter') := by
  refine Simulates.orElse ?_ (simulates_atom hsim henter)
  refine (simulates_symbol hsim _).bind fun _ _ _ => (henter _).bind fun _ _ hv => ?_
  exact simulates_create hsim (.negation hv)

theorem simulates_productStep {left left' : NodeId} (hl : V left left') :
    Simulates tokens tokens' S V (productStep enter left) (productStep enter' left') :=
  (simulates_operation hsim _ _ (simulates_factor hsim henter) hl).orElse
    (simulates_operation hsim _ _ (simulates_factor hsim henter) hl)

theorem simulates_product : Simulates tokens tokens' S V (product enter) (product enter') :=
  (simulates_factor hsim henter).bind fun _ _ hv =>
    Simulates.iterate hsim.size_eq (fun _ _ hv => simulates_productStep hsim henter hv) hv

theorem simulates_sumStep {left left' : NodeId} (hl : V left left') :
    Simulates tokens tokens' S V (sumStep enter left) (sumStep enter' left') :=
  (simulates_operation hsim _ _ (simulates_product hsim henter) hl).orElse
    ((simulates_operation hsim _ _ (simulates_product hsim henter) hl).orElse (simulates_productStep hsim henter hl))

theorem simulates_sum : Simulates tokens tokens' S V (sum enter) (sum enter') :=
  (simulates_factor hsim henter).bind fun _ _ hv =>
    Simulates.iterate hsim.size_eq (fun _ _ hv => simulates_sumStep hsim henter hv) hv

theorem simulates_level (l : Level) : Simulates tokens tokens' S V (level enter l) (level enter' l) := by
  cases l with
  | sum => exact simulates_sum hsim henter
  | product => exact simulates_product hsim henter
  | factor => exact simulates_factor hsim henter

end Levels

/-- Within a larger bound an expression takes the same course. -/
theorem simulates_expression {n m : Nat} (h : n ≤ m) (l : Level) :
    Simulates tokens tokens' S V (expression n l) (expression m l) := by
  induction n generalizing m l with
  | zero =>
    cases m with
    | zero => exact simulates_level hsim (fun _ => simulates_exhausted) l
    | succ m => exact simulates_level hsim (fun _ => simulates_exhausted) l
  | succ n ih =>
    cases m with
    | zero => omega
    | succ m => exact simulates_level hsim (ih (Nat.le_of_succ_le_succ h)) l

section Statements

variable {expr expr' : Rule NodeId} (hexpr : Simulates tokens tokens' S V expr expr')
include hexpr

theorem simulates_statement : Simulates tokens tokens' S V (statement expr) (statement expr') := by
  refine Simulates.orElse ?_ hexpr
  refine (simulates_leaf hsim _).bind fun _ _ ht => (simulates_symbol hsim _).bind fun _ _ _ => ?_
  exact hexpr.bind fun _ _ hv => simulates_create hsim (.assignment ht hv)

theorem simulates_nextStatement {items items' : List NodeId} (h : List.Forall₂ V items items') :
    Simulates tokens tokens' S (List.Forall₂ V) (nextStatement expr items) (nextStatement expr' items') :=
  (simulates_symbol hsim _).bind fun _ _ _ => (simulates_statement hsim hexpr).bind fun _ _ hv =>
    simulates_pure (.cons hv h)

theorem simulates_statements : Simulates tokens tokens' S (List.Forall₂ V) (statements expr) (statements expr') :=
  (simulates_statement hsim hexpr).bind fun _ _ hv =>
    (Simulates.iterate hsim.size_eq (fun _ _ h => simulates_nextStatement hsim hexpr h) (.cons hv .nil)).bind
      fun _ _ h => simulates_pure (List.rel_reverse h)

theorem simulates_program : Simulates tokens tokens' S V (program expr) (program expr') := by
  refine (simulates_statements hsim hexpr).bind fun items items' h => ?_
  refine ((simulates_symbol hsim _).orElse (simulates_pure trivial)).bind fun _ _ _ => ?_
  refine (simulates_atEnd hsim.size_eq).bind fun _ _ _ => ?_
  cases h with
  | nil => exact simulates_create hsim (.sequence .nil)
  | cons hv h =>
    cases h with
    | nil => exact simulates_pure hv
    | cons hv' h => exact simulates_create hsim (.sequence (.cons hv (.cons hv' h)))

end Statements

/-- Runs of the grammar from related runs take the same course. -/
theorem Simulation.follows_run {s s' : Run} (hs : S s s') :
    Follows S V (run tokens s.arena s.probe) (run tokens' s'.arena s'.probe) := by
  rw [run, run, ← hsim.size_eq]
  exact simulates_program hsim (simulates_expression hsim (Nat.le_refl _) .sum) 0 s s' hs

end Grammar

theorem Follows.snd {α β : Type} {S : Run → Run → Prop} {V : α → β → Prop} {e : Outcome α × Run} {e' : Outcome β × Run}
    (h : Follows S V e e') (hne : e.1 ≠ .exhausted) : S e.2 e'.2 := by
  cases h with
  | matched j hv hs => exact hs
  | failed hs => exact hs
  | exhausted => exact absurd rfl hne

/-! ## The bound only exhausts -/

theorem corresponds_eq {node node' : Node} (h : Corresponds Eq node node') : node = node' := by
  cases h with
  | paren h => rw [h]
  | negation h => rw [h]
  | binary o h h' => rw [h, h']
  | assignment h h' => rw [h, h']
  | sequence h =>
    rw [List.forall₂_eq_eq_eq] at h
    rw [h]

theorem simulation_eq (tokens : Array Token) : Simulation tokens tokens Eq Eq where
  mark _ _ h := by rw [h]
  agree := List.forall₂_same.mpr fun t _ => .refl (fun _ => rfl) t
  create h hs := by
    rw [corresponds_eq h, hs]
    exact ⟨rfl, rfl⟩

/-- A rule that simulates another up to equality ends as the other does, unless it is exhausted. -/
theorem Simulates.eq_of_ne_exhausted {α : Type} {tokens : Array Token} {r r' : Rule α}
    (h : Simulates tokens tokens Eq Eq r r') {i : Nat} {s : Run} (hr : (r tokens i s).1 ≠ .exhausted) :
    r' tokens i s = r tokens i s := by
  have hf := h i s s rfl
  cases he : r tokens i s with
  | mk o t =>
    cases he' : r' tokens i s with
    | mk o' t' =>
      rw [he, he'] at hf
      cases hf with
      | matched j hv ht => rw [hv, ht]
      | failed ht => rw [ht]
      | exhausted => exact absurd (congrArg Prod.fst he) hr

/-- A program that does not exhaust a bound is read in the same way under every larger one. -/
theorem program_eq_of_le {tokens : Array Token} {n m : Nat} (h : n ≤ m) {s : Run}
    (hn : (program (expression n .sum) tokens 0 s).1 ≠ .exhausted) :
    program (expression m .sum) tokens 0 s = program (expression n .sum) tokens 0 s :=
  (simulates_program (simulation_eq tokens) (simulates_expression (simulation_eq tokens) h .sum)).eq_of_ne_exhausted hn

/-! ## What rules match does not depend on the run -/

theorem simulation_true (tokens : Array Token) : Simulation tokens tokens (fun _ _ => True) (fun _ _ => True) where
  mark _ _ _ := trivial
  agree := List.forall₂_same.mpr fun t _ => .refl (fun _ => trivial) t
  create _ _ := ⟨trivial, trivial⟩

/-- The rules match in the same places whatever the run. -/
def Blind (tokens : Array Token) (enter : Level → Rule NodeId) : Prop :=
  ∀ l, Simulates tokens tokens (fun _ _ => True) (fun _ _ => True) (enter l) (enter l)

/-- A rule fails at a position whatever the run. -/
def Fails {α : Type} (tokens : Array Token) (r : Rule α) (i : Nat) : Prop :=
  ∀ s, (r tokens i s).1 = .failed

/-- The rules below a parenthesis or a sign in an expression that nests no deeper than the bound. -/
def inner : Nat → Level → Rule NodeId
  | 0 => fun _ => Rule.exhausted
  | n + 1 => expression n

theorem expression_eq (n : Nat) (l : Level) : expression n l = level (inner n) l := by
  cases n <;> rfl

theorem simulates_inner {tokens tokens' : Array Token} {S : Run → Run → Prop} {V : NodeId → NodeId → Prop}
    (hsim : Simulation tokens tokens' S V) (n : Nat) (l : Level) :
    Simulates tokens tokens' S V (inner n l) (inner n l) := by
  cases n with
  | zero => exact simulates_exhausted
  | succ n => exact simulates_expression hsim (Nat.le_refl n) l

theorem inner_blind (tokens : Array Token) (n : Nat) : Blind tokens (inner n) :=
  simulates_inner (simulation_true tokens) n

/-- Where the operators of a product fail behind one left operand they fail behind every other, whatever the run. -/
theorem productStep_fails {tokens : Array Token} {enter : Level → Rule NodeId} (hb : Blind tokens enter) {i : Nat}
    {left : NodeId} {s s' : Run} (h : productStep enter left tokens i s = (.failed, s')) (left' : NodeId) :
    Fails tokens (productStep enter left') i := by
  intro t
  have hsim : Simulates tokens tokens (fun _ _ => True) (fun _ _ => True) (productStep enter left)
      (productStep enter left') :=
    simulates_productStep (simulation_true tokens) hb trivial
  have hf := hsim i s t trivial
  rw [h] at hf
  cases he : productStep enter left' tokens i t with
  | mk o t' =>
    rw [he] at hf
    cases hf
    rfl

end Formula.Grammar
