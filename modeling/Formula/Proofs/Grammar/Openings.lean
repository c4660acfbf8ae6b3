import Mathlib.Data.List.Forall2
import Formula.Proofs.Grammar.Derivation
import Formula.Proofs.Nesting

/-!
# The nesting of tokens and of trees

`e.depth` counts the parentheses and signs on the way from the root of a tree to its deepest leaf. They are opened by
tokens: `e.openings d` lists for each token of the tree, in order, whether it opens one, and if so on how many there
are on the way from the root down to it, where `d` of them are above the tree. The tokens of a program nest deeper than
a limit at the first opening that goes beyond it, and nowhere if there is none (`DerivesProgram.findIdx?_depths`).

The nesting of tokens is followed by a scan that knows nothing of trees. It agrees with the tree because a minus is a
sign in both if no operand ends just before it, and because an operand gives back all levels that it has taken.
-/

namespace Formula

namespace Nesting

variable {n m : Nesting} {k : Kind} {limit : Nat}

/-- How deep the tokens of the given kinds nest, one after the other. -/
def depths (n : Nesting) : List Kind → List Nat
  | [] => []
  | k :: ks => (n.step k).depth :: (n.step k).depths ks

@[simp] theorem length_depths (n : Nesting) (ks : List Kind) : (n.depths ks).length = ks.length := by
  induction ks generalizing n with
  | nil => rfl
  | cons k ks ih => simp [depths, ih]

theorem depths_append (n : Nesting) (ks ks' : List Kind) :
    n.depths (ks ++ ks') = n.depths ks ++ (n.after ks).depths ks' := by
  induction ks generalizing n with
  | nil => rfl
  | cons k ks ih => simp [depths, ih, after_cons]

theorem after_append (n : Nesting) (ks ks' : List Kind) : n.after (ks ++ ks') = (n.after ks).after ks' :=
  List.foldl_append

/-- The first token that nests too deep is the first that is deeper than the limit. -/
theorem firstTooDeep_eq {α : Type} (limit : Nat) (n : Nesting) (l : List (Kind × α)) :
    n.firstTooDeep limit l =
      ((n.depths (l.map Prod.fst)).findIdx? (limit < ·)).bind fun i => l[i]?.map Prod.snd := by
  induction l generalizing n with
  | nil => rfl
  | cons e l ih =>
    obtain ⟨k, place⟩ := e
    rw [firstTooDeep, List.map_cons, depths, List.findIdx?_cons]
    by_cases h : limit < (n.step k).depth
    · simp [h]
    · rw [if_neg h, decide_eq_false h, if_neg Bool.false_ne_true, ih, Option.bind_map]
      rfl

/-- The kinds that separate two operands. -/
def Separates (k : Kind) : Prop :=
  k.endsOperand = false ∧ k ≠ .leftParen

theorem separates_of_additive? {o : Operator} (h : k.additive? = some o) : Separates k := by
  rcases Kind.eq_of_additive? h with rfl | rfl <;> exact ⟨rfl, nofun⟩

theorem separates_of_multiplicative? {o : Operator} (h : k.multiplicative? = some o) : Separates k := by
  rcases Kind.eq_of_multiplicative? h with rfl | rfl <;> exact ⟨rfl, nofun⟩

theorem separates_semicolon : Separates .semicolon := ⟨rfl, nofun⟩

theorem separates_assign : Separates .assign := ⟨rfl, nofun⟩

/-- Behind an operand, what separates it from the next one starts that where the first one started, without signs. -/
theorem Settles.step_eq (h : Settles n m) (hk : Separates k) : m.step k = ⟨n.outer, n.level, 0, some k⟩ := by
  obtain ⟨houter, hlevel, -, hbehind⟩ := h
  cases k with
  | leftParen => exact absurd rfl hk.2
  | identifier | integer | fixed | rightParen => cases hk.1
  | minus => simp [step, hbehind, houter, hlevel]
  | plus | star | slash | assign | semicolon => simp [step, houter, hlevel]

theorem Settles.depth_eq (h : Settles n m) : m.depth = n.level := by
  rw [depth, h.signs, h.level, Nat.add_zero]

theorem Settles.depth_le (h : Settles n m) (hn : n.depth ≤ limit) : m.depth ≤ limit :=
  h.depth_eq ▸ Nat.le_trans n.level_le_depth hn

theorem Settles.depth_step (h : Settles n m) (hk : Separates k) : (m.step k).depth = n.level := by
  rw [h.step_eq hk]
  rfl

/-- Two operands with a separator between them settle as one. -/
theorem Settles.trans (h : Settles n m) (hk : Separates k) {m' : Nesting} (h' : Settles (m.step k) m') :
    Settles n m' := by
  rw [h.step_eq hk] at h'
  exact ⟨h'.outer, h'.level, h'.signs, h'.behindOperand⟩

theorem Settles.separate {ks ks' : List Kind} (h : n.Settles (n.after ks)) (hk : Separates k)
    (h' : ∀ m : Nesting, m.behindOperand = false → m.Settles (m.after ks')) :
    n.Settles (n.after (ks ++ k :: ks')) := by
  rw [after_append, after_cons]
  exact h.trans hk (h' _ ((behindOperand_step _ _).trans hk.1))

end Nesting

namespace Grammar

/-! ## Depth and openings -/

/-- How many parentheses and signs there are at most on a way from the root down. -/
def Tree.depth : Tree → Nat
  | leaf _ => 0
  | paren e => e.depth + 1
  | negation e => e.depth + 1
  | binary _ l r => max l.depth r.depth

/-- What the tokens of a tree open, which is below `d` parentheses and signs: nothing, or a parenthesis or a sign, with
the number of those from the root down to it, itself among them. -/
def Tree.openings (d : Nat) : Tree → List (Option Nat)
  | leaf _ => [none]
  | paren e => some (d + 1) :: (e.openings (d + 1) ++ [none])
  | negation e => some (d + 1) :: e.openings (d + 1)
  | binary _ l r => l.openings d ++ none :: r.openings d

def Statement.depth : Statement → Nat
  | assignment _ e => e.depth
  | expression e => e.depth

def Statement.openings : Statement → List (Option Nat)
  | assignment _ e => none :: none :: e.openings 0
  | expression e => e.openings 0

/-- What the tokens of a program open that has a semicolon behind each statement. -/
def openings (ss : List Statement) : List (Option Nat) :=
  ss.flatMap fun s => s.openings ++ [none]

theorem Tree.forall_openings_le_iff (e : Tree) {d limit : Nat} (hd : d ≤ limit) :
    (∀ k, some k ∈ e.openings d → k ≤ limit) ↔ d + e.depth ≤ limit := by
  induction e generalizing d with
  | leaf _ => simpa [openings, depth] using hd
  | paren e ih | negation e ih =>
    by_cases h : d + 1 ≤ limit
    · simp [openings, depth, or_imp, forall_and, ih h, h]
      omega
    · simp only [openings, depth, List.mem_cons, Option.some.injEq]
      constructor
      · exact fun hall => absurd (hall (d + 1) (.inl rfl)) h
      · omega
  | binary o l r ihl ihr =>
    simp [openings, depth, or_imp, forall_and, ihl hd, ihr hd]
    omega

variable {c : Category} {w : List Token} {e : Tree} {s : Statement} {ss : List Statement} {n : Nesting} {limit : Nat}

/-! ## The openings of a derivation -/

/-- The token can open so: only an opening parenthesis and a minus open anything. -/
def CanOpen (t : Token) (opening : Option Nat) : Prop :=
  opening ≠ none → t.kind = .leftParen ∨ t.kind = .minus

theorem canOpen_none (t : Token) : CanOpen t none := fun h => absurd rfl h

theorem Derives.canOpen (h : Derives c w e) (d : Nat) : List.Forall₂ CanOpen w (e.openings d) := by
  induction h generalizing d with
  | @additive _ _ t _ _ _ _ _ _ ihl ihr | @multiplicative _ _ t _ _ _ _ _ _ ihl ihr =>
    exact List.rel_append (ihl d) (.cons (canOpen_none t) (ihr d))
  | negation ht _ ih => exact .cons (fun _ => .inr ht) (ih _)
  | @leaf t _ _ _ => exact .cons (canOpen_none t) .nil
  | @paren _ _ t' _ ht _ _ ih =>
    exact .cons (fun _ => .inl ht) (List.rel_append (ih _) (.cons (canOpen_none t') .nil))
  | ofTerm _ ih | ofFactor _ ih | ofAtom _ ih => exact ih d

theorem DerivesStatement.canOpen (h : DerivesStatement w s) : List.Forall₂ CanOpen w s.openings := by
  cases h with
  | @assignment _ t t' _ _ _ _ _ he => exact .cons (canOpen_none t) (.cons (canOpen_none t') (he.canOpen 0))
  | expression he => exact he.canOpen 0

theorem DerivesStatements.canOpen (h : DerivesStatements w ss) (t : Token) :
    List.Forall₂ CanOpen (w ++ [t]) (openings ss) := by
  have hlast : ∀ t, List.Forall₂ CanOpen [t] [none] := fun t => .cons (canOpen_none t) .nil
  induction h generalizing t with
  | single hs => simpa [openings] using List.rel_append hs.canOpen (hlast t)
  | @more u v t' ss s _ _ hs ih =>
    have h := List.rel_append (ih t') (List.rel_append hs.canOpen (hlast t))
    simpa [openings] using h

/-- An operand gives back the levels that it takes. -/
theorem Derives.settles (h : Derives c w e) (hn : n.behindOperand = false) :
    n.Settles (n.after (w.map Token.kind)) := by
  induction h generalizing n with
  | additive _ ho _ ihl ihr =>
    rw [List.map_append, List.map_cons]
    exact (ihl hn).separate (Nesting.separates_of_additive? ho) fun _ hm => ihr hm
  | multiplicative _ ho _ ihl ihr =>
    rw [List.map_append, List.map_cons]
    exact (ihl hn).separate (Nesting.separates_of_multiplicative? ho) fun _ hm => ihr hm
  | negation ht _ ih =>
    have hs := ih (Nesting.behindOperand_step n .minus)
    rw [List.map_cons, ht, Nesting.after_cons]
    exact ⟨hs.outer, hs.level, hs.signs, hs.behindOperand⟩
  | leaf hv _ => exact Nesting.settles_step_of_isValued n hv
  | paren ht _ ht' ih =>
    have hs := ih (Nesting.behindOperand_step n .leftParen)
    rw [List.map_cons, List.map_append, List.map_singleton, ht, ht', Nesting.after_cons, Nesting.after_concat]
    exact Nesting.settles_step_rightParen hs
  | ofTerm _ ih | ofFactor _ ih | ofAtom _ ih => exact ih hn

/-! ## Where tokens go beyond the limit -/

/-- The opening goes beyond the limit. -/
def exceeds (limit : Nat) (opening : Option Nat) : Bool :=
  opening.any (limit < ·)

theorem exceeds_eq_true_iff {opening : Option Nat} :
    exceeds limit opening = true ↔ ∃ k, opening = some k ∧ limit < k := by
  cases opening <;> simp [exceeds]

/-- The first depth beyond the limit is at the first opening beyond the limit. -/
structure Agrees (limit : Nat) (depths : List Nat) (openings : List (Option Nat)) : Prop where
  length_eq : depths.length = openings.length
  findIdx?_eq : depths.findIdx? (limit < ·) = openings.findIdx? (exceeds limit)

section

variable {d : Nat} {ds ds' : List Nat} {os os' : List (Option Nat)}

theorem agrees_nil (limit : Nat) : Agrees limit [] [] := ⟨rfl, rfl⟩

theorem Agrees.append (h : Agrees limit ds os) (h' : Agrees limit ds' os') :
    Agrees limit (ds ++ ds') (os ++ os') := by
  refine ⟨by rw [List.length_append, List.length_append, h.length_eq, h'.length_eq], ?_⟩
  rw [List.findIdx?_append, List.findIdx?_append, h.findIdx?_eq, h'.findIdx?_eq, h.length_eq]

/-- A token that opens nothing is within the limit. -/
theorem Agrees.cons_none (h : Agrees limit ds os) (hd : d ≤ limit) : Agrees limit (d :: ds) (none :: os) := by
  refine ⟨congrArg (· + 1) h.length_eq, ?_⟩
  rw [List.findIdx?_cons, List.findIdx?_cons, h.findIdx?_eq]
  simp [exceeds, Nat.not_lt.mpr hd]

/-- What is behind an opening counts only if that is within the limit. -/
theorem agrees_cons_some (hlength : ds.length = os.length) (h : d ≤ limit → Agrees limit ds os) :
    Agrees limit (d :: ds) (some d :: os) := by
  refine ⟨congrArg (· + 1) hlength, ?_⟩
  rw [List.findIdx?_cons, List.findIdx?_cons]
  by_cases hd : limit < d
  · simp [exceeds, hd]
  · simp [exceeds, hd, (h (Nat.not_lt.mp hd)).findIdx?_eq]

/-- Behind an operand there may be a separator, and then what starts where the operand did. -/
theorem Agrees.separate {ks ks' : List Kind} {k : Kind} (h : Agrees limit (n.depths ks) os)
    (hs : n.Settles (n.after ks)) (hk : Nesting.Separates k) (hsigns : n.signs = 0) (hd : n.depth ≤ limit)
    (h' : ∀ m : Nesting, m.behindOperand = false → m.signs = 0 → m.depth = n.depth →
      Agrees limit (m.depths ks') os') : Agrees limit (n.depths (ks ++ k :: ks')) (os ++ none :: os') := by
  have hdepth : n.depth = n.level := by rw [Nesting.depth, hsigns, Nat.add_zero]
  have hstep : ((n.after ks).step k).depth = n.depth := (hs.depth_step hk).trans hdepth.symm
  have hbehind : ((n.after ks).step k).behindOperand = false := (Nesting.behindOperand_step _ _).trans hk.1
  rw [Nesting.depths_append]
  exact h.append ((h' _ hbehind (by rw [hs.step_eq hk]) hstep).cons_none (hstep ▸ hd))

end

theorem Derives.length_depths (h : Derives c w e) (n : Nesting) (d : Nat) :
    (n.depths (w.map Token.kind)).length = (e.openings d).length := by
  rw [Nesting.length_depths, List.length_map, (h.canOpen d).length_eq]

/-- Only a factor may have signs just before it, which it does not count as its own. -/
theorem Derives.agrees (h : Derives c w e) (hn : n.behindOperand = false)
    (hsigns : c = .expr ∨ c = .term → n.signs = 0) (hd : n.depth ≤ limit) :
    Agrees limit (n.depths (w.map Token.kind)) (e.openings n.depth) := by
  induction h generalizing n with
  | additive hl ho hr ihl ihr =>
    have hzero := hsigns (.inl rfl)
    rw [List.map_append, List.map_cons]
    refine (ihl hn (fun _ => hzero) hd).separate (hl.settles hn) (Nesting.separates_of_additive? ho) hzero hd ?_
    intro m hm hsigns' hm'
    rw [← hm'] at hd ⊢
    exact ihr hm (fun _ => hsigns') hd
  | multiplicative hl ho hr ihl ihr =>
    have hzero := hsigns (.inr rfl)
    rw [List.map_append, List.map_cons]
    refine (ihl hn (fun _ => hzero) hd).separate (hl.settles hn) (Nesting.separates_of_multiplicative? ho) hzero
      hd ?_
    intro m hm hsigns' hm'
    rw [← hm'] at hd ⊢
    exact ihr hm (fun _ => hsigns') hd
  | negation ht he ih =>
    have hdepth : (n.step .minus).depth = n.depth + 1 := Nesting.depth_step_minus hn
    rw [List.map_cons, ht, Nesting.depths, hdepth]
    refine agrees_cons_some (he.length_depths _ _) fun hle => ?_
    rw [← hdepth] at hle ⊢
    exact ih (Nesting.behindOperand_step _ _) (by simp) hle
  | leaf hv _ => exact (agrees_nil limit).cons_none ((Nesting.settles_step_of_isValued n hv).depth_le hd)
  | @paren w t t' e ht he ht' ih =>
    have hdepth : (n.step .leftParen).depth = n.depth + 1 := rfl
    have hs := Nesting.settles_step_rightParen (he.settles (Nesting.behindOperand_step n .leftParen))
    rw [List.map_cons, List.map_append, List.map_singleton, ht, ht', Nesting.depths, Nesting.depths_append, hdepth]
    refine agrees_cons_some ?_ fun hle => ?_
    · simp [he.length_depths _ (n.depth + 1)]
    · refine Agrees.append ?_ ((agrees_nil limit).cons_none (hs.depth_le hd))
      rw [← hdepth] at hle ⊢
      exact ih (Nesting.behindOperand_step _ _) (fun _ => rfl) hle
  | ofTerm _ ih => exact ih hn (fun _ => hsigns (.inl rfl)) hd
  | ofFactor _ ih | ofAtom _ ih => exact ih hn (by simp) hd

/-! ## Programs -/

theorem DerivesStatement.settles (h : DerivesStatement w s) (hn : n.behindOperand = false) :
    n.Settles (n.after (w.map Token.kind)) := by
  cases h with
  | @assignment w t t' _ _ ht _ ht' he =>
    have htarget : n.Settles (n.after [t.kind]) := Nesting.settles_step_of_isValued n (by rw [ht]; rfl)
    exact htarget.separate (ht' ▸ Nesting.separates_assign) fun _ hm => he.settles hm
  | expression he => exact he.settles hn

/-- A statement with a semicolon behind it, outside of parentheses. -/
theorem DerivesStatement.agrees (h : DerivesStatement w s) (hn : n.behindOperand = false) (hd : n.depth = 0) :
    Agrees limit (n.depths (w.map Token.kind ++ [.semicolon])) (s.openings ++ [none]) := by
  have hsigns : n.signs = 0 := (Nat.add_eq_zero_iff.mp hd).2
  have hle : n.depth ≤ limit := hd ▸ Nat.zero_le limit
  refine Agrees.separate ?_ (h.settles hn) Nesting.separates_semicolon hsigns hle fun _ _ _ _ => agrees_nil limit
  cases h with
  | @assignment w t t' _ _ ht _ ht' he =>
    have htarget : n.Settles (n.step t.kind) := Nesting.settles_step_of_isValued n (by rw [ht]; rfl)
    have hfirst : Agrees limit (n.depths [t.kind]) [none] := (agrees_nil limit).cons_none (htarget.depth_le hle)
    refine hfirst.separate htarget (ht' ▸ Nesting.separates_assign) hsigns hle fun m hm hsigns' hm' => ?_
    rw [hd] at hm'
    have hvalue := he.agrees hm (fun _ => hsigns') (hm' ▸ Nat.zero_le limit)
    rwa [hm'] at hvalue
  | expression he =>
    have hvalue := he.agrees hn (fun _ => hsigns) hle
    rwa [hd] at hvalue

theorem DerivesStatements.settles (h : DerivesStatements w ss) (hn : n.behindOperand = false) :
    n.Settles (n.after (w.map Token.kind)) := by
  induction h with
  | single hs => exact hs.settles hn
  | more _ ht hs ih =>
    rw [List.map_append, List.map_cons]
    exact ih.separate (ht ▸ Nesting.separates_semicolon) fun _ hm => hs.settles hm

theorem DerivesStatements.agrees (h : DerivesStatements w ss) (hn : n.behindOperand = false) (hd : n.depth = 0) :
    Agrees limit (n.depths (w.map Token.kind ++ [.semicolon])) (openings ss) := by
  induction h with
  | single hs => simpa [openings] using hs.agrees hn hd
  | @more u v t ss s hss ht hs ih =>
    have hlevel : n.level = 0 := (Nat.add_eq_zero_iff.mp hd).1
    have hnext : Agrees limit (((n.after (u.map Token.kind)).step .semicolon).depths _) (s.openings ++ [none]) :=
      hs.agrees (Nesting.behindOperand_step _ _)
        (((hss.settles hn).depth_step Nesting.separates_semicolon).trans hlevel)
    rw [← Nesting.after_concat] at hnext
    have hall := ih.append hnext
    rw [← Nesting.depths_append] at hall
    simpa [openings, ht] using hall

/-- The tokens of a program nest deeper than the limit where the openings of the program first do. -/
theorem DerivesProgram.findIdx?_depths (h : DerivesProgram w ss) (limit : Nat) :
    (Nesting.start.depths (w.map Token.kind)).findIdx? (limit < ·) = (openings ss).findIdx? (exceeds limit) := by
  cases h with
  | plain hss =>
    have hagrees : Agrees limit (Nesting.start.depths _) (openings ss) := hss.agrees rfl rfl
    have hlast : ((Nesting.start.after (w.map Token.kind)).step .semicolon).depth = 0 :=
      (hss.settles rfl).depth_step Nesting.separates_semicolon
    rw [← hagrees.findIdx?_eq, Nesting.depths_append, List.findIdx?_append, Nesting.depths, hlast]
    simp [Nesting.depths]
  | closed hss ht =>
    rw [List.map_append, List.map_singleton, ht]
    exact (hss.agrees rfl rfl).findIdx?_eq

/-- Each opening of a program is at its own token. -/
theorem DerivesProgram.exists_token (h : DerivesProgram w ss) {i k : Nat}
    (hi : (openings ss)[i]? = some (some k)) : ∃ t, w[i]? = some t ∧ (t.kind = .leftParen ∨ t.kind = .minus) := by
  have hat : ∀ {w : List Token}, List.Forall₂ CanOpen w (openings ss) →
      ∃ t, w[i]? = some t ∧ (t.kind = .leftParen ∨ t.kind = .minus) := by
    intro w hw
    have hlt : i < w.length := hw.length_eq ▸ (List.getElem?_eq_some_iff.mp hi).1
    refine ⟨w[i], List.getElem?_eq_getElem hlt, hw.get hlt (hw.length_eq ▸ hlt) ?_⟩
    rw [List.get_eq_getElem, (List.getElem?_eq_some_iff.mp hi).2]
    nofun
  cases h with
  | closed hss _ => exact hat (hss.canOpen _)
  | plain hss =>
    -- the semicolon that is left out would open nothing
    obtain ⟨t, ht, hkind⟩ := hat (hss.canOpen ⟨.semicolon, none⟩)
    refine ⟨t, ?_, hkind⟩
    rw [List.getElem?_append] at ht
    split at ht
    · exact ht
    · obtain rfl := List.mem_singleton.mp (List.mem_of_getElem? ht)
      simp at hkind

theorem Statement.forall_exceeds_iff (s : Statement) :
    (∀ o ∈ s.openings, exceeds limit o = false) ↔ s.depth ≤ limit := by
  have hvalue : ∀ e : Tree, (∀ o ∈ e.openings 0, exceeds limit o = false) ↔ e.depth ≤ limit := by
    intro e
    rw [← Nat.zero_add e.depth, ← e.forall_openings_le_iff (Nat.zero_le limit)]
    simp [exceeds, Option.forall]
  cases s with
  | assignment t e => simpa [openings, depth, exceeds] using hvalue e
  | expression e => exact hvalue e

/-- No opening goes beyond the limit if no way down a statement is longer than it. -/
theorem findIdx?_openings_eq_none_iff :
    (openings ss).findIdx? (exceeds limit) = none ↔ ∀ s ∈ ss, s.depth ≤ limit := by
  have hnone : exceeds limit none = false := rfl
  rw [List.findIdx?_eq_none_iff, openings, List.forall_mem_flatMap]
  simp only [List.forall_mem_append, List.forall_mem_singleton, hnone, and_true, Statement.forall_exceeds_iff]

end Grammar

end Formula
