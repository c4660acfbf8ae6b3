import Formula.Proofs.Grammar.Reading
import Formula.Proofs.Rendering.Build

/-!
# Symbols

A symbol is a token without its place: its kind, and the value of its leaf if it has one. The symbols of a program are
those of its tokens in order, and they can be read off its forms (`DerivesStatements.symbols_eq`). They also tell what
the forms are: tokens with the same symbols are derived alike (`DerivesStatements.transport`), and they are one program.
-/

namespace Formula

/-- A kind, with the value that goes with it. -/
structure Symbol where
  kind : Kind
  value : Option Node
deriving DecidableEq

/-- The kind of the tokens that have such a leaf. -/
def Node.kind : Node → Kind
  | integer _ => .integer
  | fixed _ => .fixed
  | _ => .identifier

def Operator.kind : Operator → Kind
  | add => .plus
  | sub => .minus
  | mul => .star
  | div => .slash

theorem Operator.isValued_kind (o : Operator) : o.kind.isValued = false := by
  cases o <;> rfl

theorem Kind.eq_kind_of_additive? {k : Kind} {o : Operator} (h : k.additive? = some o) : k = o.kind := by
  cases k <;> cases h <;> rfl

theorem Kind.eq_kind_of_multiplicative? {k : Kind} {o : Operator} (h : k.multiplicative? = some o) : k = o.kind := by
  cases k <;> cases h <;> rfl

namespace Symbol

/-- The symbol of a token without a leaf. -/
def mark (kind : Kind) : Symbol := ⟨kind, none⟩

def ofLeaf (node : Node) : Symbol := ⟨node.kind, some node⟩

/-- The symbols without a semicolon behind them. -/
def dropClosing (w : List Symbol) : List Symbol :=
  if w.getLast? = some (mark .semicolon) then w.dropLast else w

theorem dropClosing_concat (w : List Symbol) : dropClosing (w ++ [mark .semicolon]) = w := by
  simp [dropClosing]

end Symbol

/-- The symbols that a form is written with. -/
def Form.symbols : Form → List Symbol
  | leaf node => [.ofLeaf node]
  | paren f => .mark .leftParen :: (f.symbols ++ [.mark .rightParen])
  | negation f => .mark .minus :: f.symbols
  | binary operator f g => f.symbols ++ .mark operator.kind :: g.symbols
  | assignment f g => f.symbols ++ .mark .assign :: g.symbols

namespace Grammar

/-- The symbol of a token, with the value of its leaf. -/
def symbolOf (value : NodeId → Node) (t : Token) : Symbol :=
  ⟨t.kind, (leaf? t).map value⟩

variable {value value' : NodeId → Node} {c : Category} {w w' : List Token} {e : Tree} {s : Statement}
  {ss : List Statement} {t t' : Token}

theorem symbolOf_of_kind {k : Kind} (h : t.kind = k) (hk : k.isValued = false) : symbolOf value t = .mark k := by
  rw [symbolOf, leaf?_eq_none (h ▸ hk), h]
  rfl

/-! ## The symbols of a derivation -/

/-- The leaves of the tokens have values of their kinds. -/
def Kinded (value : NodeId → Node) (w : List Token) : Prop :=
  ∀ t ∈ w, ∀ id, leaf? t = some id → (value id).kind = t.kind

theorem symbolOf_of_leaf {id : NodeId} (h : leaf? t = some id) (hkind : (value id).kind = t.kind) :
    symbolOf value t = .ofLeaf (value id) := by
  rw [symbolOf, h, Symbol.ofLeaf, hkind]
  rfl

theorem Kinded.left (h : Kinded value (w ++ w')) : Kinded value w :=
  fun t ht => h t (List.mem_append_left _ ht)

theorem Kinded.right (h : Kinded value (w ++ w')) : Kinded value w' :=
  fun t ht => h t (List.mem_append_right _ ht)

theorem Kinded.tail (h : Kinded value (t :: w)) : Kinded value w :=
  fun t' ht => h t' (List.mem_cons_of_mem t ht)

/-- The symbols of a form are those of its tokens. -/
theorem Derives.symbols_eq (h : Derives c w e) (hw : Kinded value w) :
    (e.form value).symbols = w.map (symbolOf value) := by
  induction h with
  | @additive u v t l r o _ ho _ ihl ihr =>
    have ht : symbolOf value t = .mark o.kind := symbolOf_of_kind (Kind.eq_kind_of_additive? ho) o.isValued_kind
    simp [Tree.form, Form.symbols, ihl hw.left, ihr hw.right.tail, ht]
  | @multiplicative u v t l r o _ ho _ ihl ihr =>
    have ht : symbolOf value t = .mark o.kind := symbolOf_of_kind (Kind.eq_kind_of_multiplicative? ho) o.isValued_kind
    simp [Tree.form, Form.symbols, ihl hw.left, ihr hw.right.tail, ht]
  | negation ht _ ih => simp [Tree.form, Form.symbols, ih hw.tail, symbolOf_of_kind ht rfl]
  | @leaf t id hv hp =>
    have hleaf : leaf? t = some id := (if_pos hv).trans hp
    simp [Tree.form, Form.symbols, symbolOf_of_leaf hleaf (hw t (List.mem_singleton_self t) id hleaf)]
  | paren ht _ ht' ih =>
    simp [Tree.form, Form.symbols, ih hw.tail.left, symbolOf_of_kind ht rfl, symbolOf_of_kind ht' rfl]
  | ofTerm _ ih | ofFactor _ ih | ofAtom _ ih => exact ih hw

theorem DerivesStatement.symbols_eq (h : DerivesStatement w s) (hw : Kinded value w) :
    (s.form value).symbols = w.map (symbolOf value) := by
  cases h with
  | @assignment w t t' id e ht hp ht' he =>
    have hleaf : leaf? t = some id := (if_pos (by rw [ht]; rfl)).trans hp
    have hsymbol := symbolOf_of_leaf hleaf (hw t List.mem_cons_self id hleaf)
    simp [Statement.form, Form.symbols, hsymbol, symbolOf_of_kind ht' rfl, he.symbols_eq hw.tail.tail]
  | expression he => exact he.symbols_eq hw

/-- The symbols of statements are those of their tokens, if a semicolon is put behind. -/
theorem DerivesStatements.symbols_eq (h : DerivesStatements w ss) (hw : Kinded value w) :
    (ss.map (Statement.form value)).flatMap (fun f => f.symbols ++ [.mark .semicolon]) =
      w.map (symbolOf value) ++ [.mark .semicolon] := by
  induction h with
  | single hs => simp [hs.symbols_eq hw]
  | more _ ht hs ih => simp [ih hw.left, hs.symbols_eq hw.right.tail, symbolOf_of_kind ht rfl]

/-! ## The closing semicolon -/

theorem DerivesStatement.ne_nil (h : DerivesStatement w s) : w ≠ [] := by
  cases h with
  | assignment _ _ _ _ => simp
  | expression he => exact he.ne_nil

theorem DerivesStatement.kind_ne (h : DerivesStatement w s) : ∀ t ∈ w, t.kind ≠ .semicolon := by
  cases h with
  | assignment ht _ ht' he =>
    refine List.forall_mem_cons.mpr ⟨by rw [ht]; decide, List.forall_mem_cons.mpr ⟨by rw [ht']; decide, ?_⟩⟩
    exact fun t ht => (he.kind_ne t ht).2
  | expression he => exact fun t ht => (he.kind_ne t ht).2

/-- Statements do not end in a semicolon. -/
theorem DerivesStatements.kind_getLast?_ne (h : DerivesStatements w ss) : ∀ t ∈ w.getLast?, t.kind ≠ .semicolon := by
  cases h with
  | single hs => exact fun t ht => hs.kind_ne t (List.mem_of_getLast? ht)
  | more _ _ hs =>
    intro t ht
    rw [List.getLast?_append_of_ne_nil _ (List.cons_ne_nil _ _), List.getLast?_cons_of_ne_nil hs.ne_nil] at ht
    exact hs.kind_ne t (List.mem_of_getLast? ht)

/-- A program is statements, and perhaps a semicolon behind them. -/
theorem DerivesProgram.exists_statements (h : DerivesProgram w ss) (value : NodeId → Node) :
    ∃ u, DerivesStatements u ss ∧ u <+: w ∧ Symbol.dropClosing (w.map (symbolOf value)) = u.map (symbolOf value) := by
  cases h with
  | plain h =>
    refine ⟨w, h, List.prefix_rfl, if_neg fun hlast => ?_⟩
    rw [List.getLast?_map] at hlast
    obtain ⟨t, ht, hsymbol⟩ := Option.map_eq_some_iff.mp hlast
    exact h.kind_getLast?_ne t ht (congrArg Symbol.kind hsymbol)
  | @closed u t _ h ht =>
    refine ⟨u, h, List.prefix_append u [t], ?_⟩
    rw [List.map_append, List.map_singleton, symbolOf_of_kind ht rfl, Symbol.dropClosing_concat]

/-! ## Tokens with the same symbols -/

theorem symbolOf_eq (h : symbolOf value' t' = symbolOf value t) :
    t'.kind = t.kind ∧ (leaf? t').map value' = (leaf? t).map value := by
  simpa [symbolOf] using h

/-- A leaf is matched by one with the same value. -/
theorem exists_leaf_of_symbolOf_eq {id : NodeId} (h : symbolOf value' t' = symbolOf value t)
    (hv : t.kind.isValued = true) (hp : t.payload = some id) :
    t'.kind = t.kind ∧ ∃ id', t'.payload = some id' ∧ value' id' = value id := by
  obtain ⟨hkind, hvalue⟩ := symbolOf_eq h
  rw [leaf?, leaf?, hkind, if_pos hv, if_pos hv, hp] at hvalue
  exact ⟨hkind, Option.map_eq_some_iff.mp hvalue⟩

theorem exists_split_of_map_eq {u v : List Token}
    (h : w.map (symbolOf value') = (u ++ t :: v).map (symbolOf value)) :
    ∃ u' t' v', w = u' ++ t' :: v' ∧ u'.map (symbolOf value') = u.map (symbolOf value) ∧ t'.kind = t.kind ∧
      v'.map (symbolOf value') = v.map (symbolOf value) := by
  rw [List.map_append, List.map_cons] at h
  obtain ⟨u', w', rfl, hu, hw⟩ := List.map_eq_append_iff.mp h
  obtain ⟨t', v', rfl, ht, hv⟩ := List.map_eq_cons_iff.mp hw
  exact ⟨u', t', v', rfl, hu, (symbolOf_eq ht).1, hv⟩

/-- Tokens with the same symbols are derived alike. -/
theorem Derives.transport (h : Derives c w e) (hw : w'.map (symbolOf value') = w.map (symbolOf value)) :
    ∃ e', Derives c w' e' ∧ e'.form value' = e.form value := by
  induction h generalizing w' with
  | @additive u v t l r o _ ho _ ihl ihr =>
    obtain ⟨u', t', v', rfl, hu, ht, hv⟩ := exists_split_of_map_eq hw
    obtain ⟨l', hl, hlForm⟩ := ihl hu
    obtain ⟨r', hr, hrForm⟩ := ihr hv
    exact ⟨.binary o l' r', .additive hl (ht ▸ ho) hr, by simp [Tree.form, hlForm, hrForm]⟩
  | @multiplicative u v t l r o _ ho _ ihl ihr =>
    obtain ⟨u', t', v', rfl, hu, ht, hv⟩ := exists_split_of_map_eq hw
    obtain ⟨l', hl, hlForm⟩ := ihl hu
    obtain ⟨r', hr, hrForm⟩ := ihr hv
    exact ⟨.binary o l' r', .multiplicative hl (ht ▸ ho) hr, by simp [Tree.form, hlForm, hrForm]⟩
  | negation hk _ ih =>
    obtain ⟨t', v', rfl, ht, hv⟩ := List.map_eq_cons_iff.mp hw
    obtain ⟨e', he, hform⟩ := ih hv
    exact ⟨.negation e', .negation ((symbolOf_eq ht).1.trans hk) he, by simp [Tree.form, hform]⟩
  | leaf hv hp =>
    obtain ⟨t', rfl, ht⟩ := List.map_eq_singleton_iff.mp hw
    obtain ⟨hkind, id', hp', hvalue⟩ := exists_leaf_of_symbolOf_eq ht hv hp
    exact ⟨.leaf id', .leaf (hkind ▸ hv) hp', by simp [Tree.form, hvalue]⟩
  | paren hk _ hk' ih =>
    obtain ⟨t', v', rfl, ht, hv⟩ := List.map_eq_cons_iff.mp hw
    obtain ⟨u', x', y', rfl, hu, hx, hy⟩ := exists_split_of_map_eq hv
    obtain rfl := List.map_eq_nil_iff.mp hy
    obtain ⟨e', he, hform⟩ := ih hu
    exact ⟨.paren e', .paren ((symbolOf_eq ht).1.trans hk) he (hx.trans hk'), by simp [Tree.form, hform]⟩
  | ofTerm _ ih =>
    obtain ⟨e', he', hform⟩ := ih hw
    exact ⟨e', .ofTerm he', hform⟩
  | ofFactor _ ih =>
    obtain ⟨e', he', hform⟩ := ih hw
    exact ⟨e', .ofFactor he', hform⟩
  | ofAtom _ ih =>
    obtain ⟨e', he', hform⟩ := ih hw
    exact ⟨e', .ofAtom he', hform⟩

theorem DerivesStatement.transport (h : DerivesStatement w s)
    (hw : w'.map (symbolOf value') = w.map (symbolOf value)) :
    ∃ s', DerivesStatement w' s' ∧ s'.form value' = s.form value := by
  cases h with
  | assignment hk hp hk' he =>
    obtain ⟨t, u, rfl, ht, hu⟩ := List.map_eq_cons_iff.mp hw
    obtain ⟨t', v, rfl, ht', hv⟩ := List.map_eq_cons_iff.mp hu
    obtain ⟨hkind, id', hp', hvalue⟩ := exists_leaf_of_symbolOf_eq ht (by rw [hk]; rfl) hp
    obtain ⟨e', he', hform⟩ := he.transport hv
    exact ⟨.assignment id' e', .assignment (hkind.trans hk) hp' ((symbolOf_eq ht').1.trans hk') he',
      by simp [Statement.form, hvalue, hform]⟩
  | expression he =>
    obtain ⟨e', he', hform⟩ := he.transport hw
    exact ⟨.expression e', .expression he', hform⟩

theorem DerivesStatements.transport (h : DerivesStatements w ss)
    (hw : w'.map (symbolOf value') = w.map (symbolOf value)) :
    ∃ ss', DerivesStatements w' ss' ∧ ss'.map (Statement.form value') = ss.map (Statement.form value) := by
  induction h generalizing w' with
  | single hs =>
    obtain ⟨s', hs', hform⟩ := hs.transport hw
    exact ⟨[s'], .single hs', by simp [hform]⟩
  | more _ hk hs ih =>
    obtain ⟨u', t', v', rfl, hu, ht, hv⟩ := exists_split_of_map_eq hw
    obtain ⟨ss', hss', hforms⟩ := ih hu
    obtain ⟨s', hs', hform⟩ := hs.transport hv
    exact ⟨ss' ++ [s'], .more hss' (ht.trans hk) hs', by simp [hforms, hform]⟩

/-- Programs have the same forms exactly if their tokens have the same symbols, a closing semicolon aside. -/
theorem DerivesProgram.map_form_eq_iff {ss' : List Statement} {a : Arena} (h : DerivesProgram w ss)
    (h' : DerivesProgram w' ss') (hw : Kinded value w) (hw' : Kinded value' w') (hleaves : HasLeaves a w') :
    ss.map (Statement.form value) = ss'.map (Statement.form value') ↔
      Symbol.dropClosing (w.map (symbolOf value)) = Symbol.dropClosing (w'.map (symbolOf value')) := by
  obtain ⟨u, hu, hstart, hdrop⟩ := h.exists_statements value
  obtain ⟨u', hu', hstart', hdrop'⟩ := h'.exists_statements value'
  rw [hdrop, hdrop']
  constructor
  · intro hforms
    have hsymbols := hu.symbols_eq fun t ht => hw t (hstart.subset ht)
    rw [hforms, hu'.symbols_eq fun t ht => hw' t (hstart'.subset ht)] at hsymbols
    exact (List.append_cancel_right hsymbols).symm
  · intro hsymbols
    obtain ⟨ss'', hss'', hforms⟩ := hu.transport hsymbols.symm
    -- the tokens of the second program are derived in one way
    have hunique : ss'' = ss' :=
      (DerivesProgram.plain hss'').unique (.plain hu') fun t ht => hleaves t (hstart'.subset ht)
    rw [← hforms, hunique]

end Grammar

end Formula
