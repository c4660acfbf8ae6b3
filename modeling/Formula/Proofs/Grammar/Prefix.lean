import Formula.Proofs.Grammar.Recognition

/-!
# Viable prefixes

Tokens are a viable prefix if a program begins with them. What may stand at a position is told by the phrases around
it: `Frames x y P Q` says that a phrase `P` is a phrase `Q` with `x` before it and `y` behind it. So a position where a
`Q` may stand opens a `P` behind `x` (`Opens.of_frames`), and expects the class of every token that `x` goes on with in
a `Q` (`Opens.expects`). Where no `Q` goes on with the token that is there, no `P` inside of it does
(`Stuck.of_frames`).
-/

namespace Formula

/-- A token of the class. -/
def Class.sample (c : Class) : Token :=
  ⟨c.kind, some ⟨0, 0⟩⟩

theorem Class.ofKind_sample (c : Class) : ofKind c.sample.kind = c := by
  cases c <;> rfl

namespace Grammar

/-! ## Phrases -/

/-- The tokens are derived as the category. -/
def Phrase (c : Category) (w : List Token) : Prop :=
  ∃ e, Derives c w e

def IsStatement (w : List Token) : Prop :=
  ∃ s, DerivesStatement w s

def IsStatements (w : List Token) : Prop :=
  ∃ ss, DerivesStatements w ss

def IsProgram (w : List Token) : Prop :=
  ∃ ss, DerivesProgram w ss

/-- A phrase of one sort is one of another with tokens around it. -/
def Frames (x y : List Token) (P Q : List Token → Prop) : Prop :=
  ∀ w, P w → Q (x ++ w ++ y)

section Frames

variable {u w : List Token} {t s : Token} {o : Operator} {id : NodeId}

theorem frames_atom_factor : Frames [] [] (Phrase .atom) (Phrase .factor) := by
  rintro w ⟨e, he⟩
  simpa using ⟨e, .ofAtom he⟩

theorem frames_factor_term : Frames [] [] (Phrase .factor) (Phrase .term) := by
  rintro w ⟨e, he⟩
  simpa using ⟨e, .ofFactor he⟩

theorem frames_term_expr : Frames [] [] (Phrase .term) (Phrase .expr) := by
  rintro w ⟨e, he⟩
  simpa using ⟨e, .ofTerm he⟩

theorem frames_negation (ht : t.kind = .minus) : Frames [t] [] (Phrase .factor) (Phrase .factor) := by
  rintro w ⟨e, he⟩
  simpa using ⟨_, .negation ht he⟩

theorem frames_paren (ht : t.kind = .leftParen) (hs : s.kind = .rightParen) :
    Frames [t] [s] (Phrase .expr) (Phrase .atom) := by
  rintro w ⟨e, he⟩
  exact ⟨_, .paren ht he hs⟩

theorem frames_multiplicative (hu : Phrase .term u) (ho : t.kind.multiplicative? = some o) :
    Frames (u ++ [t]) [] (Phrase .factor) (Phrase .term) := by
  obtain ⟨l, hl⟩ := hu
  rintro w ⟨e, he⟩
  simpa using ⟨_, .multiplicative hl ho he⟩

theorem frames_additive (hu : Phrase .expr u) (ho : t.kind.additive? = some o) :
    Frames (u ++ [t]) [] (Phrase .term) (Phrase .expr) := by
  obtain ⟨l, hl⟩ := hu
  rintro w ⟨e, he⟩
  simpa using ⟨_, .additive hl ho he⟩

/-- An expression goes on with an operator of a product as well: that belongs to its last term. -/
theorem frames_multiplicative_expr (hu : Phrase .expr u) (ho : t.kind.multiplicative? = some o) :
    Frames (u ++ [t]) [] (Phrase .factor) (Phrase .expr) := by
  obtain ⟨l, hl⟩ := hu
  rintro w ⟨e, he⟩
  cases hl with
  | ofTerm hl => simpa using ⟨_, .ofTerm (.multiplicative hl ho he)⟩
  | additive hl ho' hr => simpa using ⟨_, .additive hl ho' (.multiplicative hr ho he)⟩

theorem frames_assignment (ht : t.kind = .identifier) (hp : t.payload = some id) (hs : s.kind = .assign) :
    Frames [t, s] [] (Phrase .expr) IsStatement := by
  rintro w ⟨e, he⟩
  simpa using ⟨_, .assignment ht hp hs he⟩

theorem frames_expression : Frames [] [] (Phrase .expr) IsStatement := by
  rintro w ⟨e, he⟩
  simpa using ⟨_, .expression he⟩

theorem frames_atom_statement : Frames [] [] (Phrase .atom) IsStatement := by
  rintro w ⟨e, he⟩
  simpa using ⟨_, .expression (.ofTerm (.ofFactor (.ofAtom he)))⟩

/-- A statement goes on as the expression does that it ends in. -/
theorem frames_statement {P : List Token → Prop} (hu : IsStatement u)
    (h : ∀ w, Phrase .expr w → Frames (w ++ [t]) [] P (Phrase .expr)) : Frames (u ++ [t]) [] P IsStatement := by
  obtain ⟨e, he⟩ := hu
  intro v hv
  cases he with
  | assignment hk hp hk' he =>
    obtain ⟨e', he'⟩ := h _ ⟨_, he⟩ v hv
    exact ⟨_, .assignment hk hp hk' he'⟩
  | expression he =>
    obtain ⟨e', he'⟩ := h _ ⟨_, he⟩ v hv
    exact ⟨_, .expression he'⟩

theorem frames_single : Frames [] [] IsStatement IsStatements := by
  rintro w ⟨e, he⟩
  simpa using ⟨_, .single he⟩

theorem frames_more (hu : IsStatements u) (ht : t.kind = .semicolon) :
    Frames (u ++ [t]) [] IsStatement IsStatements := by
  obtain ⟨ss, hss⟩ := hu
  rintro w ⟨e, he⟩
  simpa using ⟨_, .more hss ht he⟩

theorem frames_plain : Frames [] [] IsStatements IsProgram := by
  rintro w ⟨ss, hss⟩
  simpa using ⟨_, .plain hss⟩

theorem Frames.apply {x y : List Token} {P Q : List Token → Prop} (h : Frames x y P Q) (hw : P w) : Q (x ++ w ++ y) :=
  h w hw

/-- A name is a phrase of every category. -/
theorem phrase_name (c : Category) : Phrase c [Class.identifier.sample] := by
  have hatom : Phrase .atom [Class.identifier.sample] := ⟨_, .leaf rfl rfl⟩
  have hfactor := frames_atom_factor.apply hatom
  have hterm := frames_factor_term.apply hfactor
  cases c with
  | atom => exact hatom
  | factor => exact hfactor
  | term => exact hterm
  | expr => exact frames_term_expr.apply hterm

end Frames

/-! ## Prefixes -/

/-- Some program begins with the tokens. -/
def Viable (u : List Token) : Prop :=
  ∃ v, IsProgram (u ++ v)

theorem Viable.of_append {u v : List Token} (h : Viable (u ++ v)) : Viable u := by
  obtain ⟨w, h⟩ := h
  exact ⟨v ++ w, by rwa [← List.append_assoc]⟩

section

variable (tokens : Array Token)

/-- The tokens before the position go on with one of the class to a viable prefix. -/
def Expects (c : Class) (i : Nat) : Prop :=
  i ≤ tokens.size ∧ ∃ t, Class.ofKind t.kind = c ∧ Viable (tokens.toList.take i ++ [t])

/-- Any phrase may stand at the position. -/
structure Opens (P : List Token → Prop) (i : Nat) : Prop where
  le_size : i ≤ tokens.size
  viable {w : List Token} : P w → Viable (tokens.toList.take i ++ w)

/-- No phrase goes on with the token at the position behind `u`. -/
def Stuck (P : List Token → Prop) (u : List Token) (p : Nat) : Prop :=
  ∀ t v, tokens[p]? = some t → ¬ P (u ++ t :: v)

end

section

variable {tokens : Array Token} {P Q : List Token → Prop} {i j p : Nat} {x y u : List Token} {t : Token}

theorem reads_nil (tokens : Array Token) (i : Nat) : Reads tokens i [] i := ⟨rfl, rfl⟩

theorem Reads.take_eq (h : Reads tokens i x j) : tokens.toList.take j = tokens.toList.take i ++ x := by
  rw [h.1, List.take_add, h.2, List.take_left]

theorem Reads.le_size_of_le (h : Reads tokens i x j) (hi : i ≤ tokens.size) : j ≤ tokens.size := by
  cases x with
  | nil => rwa [h.1]
  | cons t x => exact h.le_size (List.cons_ne_nil t x)

theorem Opens.of_frames (h : Opens tokens Q i) (hx : Reads tokens i x j) (hf : Frames x y P Q) : Opens tokens P j where
  le_size := hx.le_size_of_le h.le_size
  viable {w} hw := by
    have hv := h.viable (hf.apply hw)
    rw [List.append_assoc, ← List.append_assoc, ← hx.take_eq, ← List.append_assoc] at hv
    exact hv.of_append

theorem Opens.expects {c : Class} (h : Opens tokens Q i) (hx : Reads tokens i x j) (hQ : Q (x ++ c.sample :: y)) :
    Expects tokens c j := by
  refine ⟨hx.le_size_of_le h.le_size, c.sample, c.ofKind_sample, ?_⟩
  have hv := h.viable hQ
  rw [← List.append_assoc, ← hx.take_eq, List.append_cons] at hv
  exact hv.of_append

theorem Opens.expects_head {c : Class} (h : Opens tokens Q i) (hQ : Q (c.sample :: y)) : Expects tokens c i :=
  h.expects (reads_nil tokens i) hQ

theorem Opens.expects_of_frames {c : Class} {w : List Token} (h : Opens tokens Q i) (hx : Reads tokens i x j)
    (hf : Frames (x ++ [c.sample]) y P Q) (hw : P w) : Expects tokens c j := by
  have hQ := hf.apply hw
  rw [List.append_assoc, ← List.append_cons] at hQ
  exact h.expects hx hQ

theorem Stuck.of_frames (h : Stuck tokens Q (x ++ u) p) (hf : Frames x y P Q) : Stuck tokens P u p := by
  intro t v ht hP
  refine h t (v ++ y) ht ?_
  simpa using hf.apply hP

end

end Grammar

end Formula
