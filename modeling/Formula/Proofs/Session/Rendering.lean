import Formula.Proofs.Lexeme.Partition
import Formula.Proofs.Rendering.Symbols
import Formula.Proofs.Session.Leaves

/-!
# What a rendering tells

A strict session makes legible leaves only: what is scanned as a numeral has no sign, and a fixed-point value that is
not finite is refused. So the rendering of a root tells the program below it, and that tells the symbols of the source
and is told by them (`render_parse_eq_iff`).
-/

namespace Formula

open Grammar

/-! ## Legible leaves -/

/-- What a lexeme of a scan is written as. -/
theorem matches_of_mem_scan {l : Lexeme} {source : String} (h : .ok l ∈ scan source) :
    (Role.lexeme l.kind).Matches l.text.toList := by
  obtain ⟨u, w, v, -, hentry⟩ := (Scan.cuts_scan source).exists_slice _ h
  cases hentry with
  | lexeme hlongest => simpa using hlongest.matches_self

theorem Numeral.nonneg_of_integer? {w : List Char} (hw : IsDigits w) {value : Int64} (h : integer? w = some value) :
    0 ≤ value.toInt := by
  obtain ⟨hne, hdigits⟩ := hw
  have hsign : splitSign w = ([], w) := splitSign_of_isDigit fun c hc => hdigits c (List.mem_of_mem_head? hc)
  have hvalue : signedValue [] w = valueOf w := rfl
  have hlo : Int64.minValue.toInt = -9223372036854775808 := by decide
  have hhi : Int64.maxValue.toInt = 9223372036854775807 := by decide
  simp only [integer?, hsign, hvalue, hlo, hhi, Bool.and_eq_true, decide_eq_true_eq] at h
  split at h
  · rename_i hrange
    cases h
    rw [Int64.toInt_ofInt_of_le] <;> omega
  · cases h

theorem Numeral.negative_of_fixed? {u v : List Char} (hu : IsDigits u) (hv : IsDigits v) {value : Binary64}
    (h : fixed? (u ++ '.' :: v) = some value) : value.negative = false := by
  have hdecimal := decimal?_point false (isDigits_iff.mpr hu) (isDigits_iff.mpr hv)
  rw [fixed?, show decimal? (u ++ '.' :: v) = _ from hdecimal] at h
  cases h
  rfl

theorem Lexeme.IsValue.isLegible {l : Lexeme} {node : Node} (h : l.IsValue .strict node)
    (hl : (Role.lexeme l.kind).Matches l.text.toList) : node.IsLegible := by
  cases h with
  | identifier hk =>
    rw [hk] at hl
    obtain ⟨c, t, htext, hc, ht⟩ := hl
    refine .identifier htext ?_ fun d hd => Scan.isNamePart_iff.mpr (ht d hd)
    simpa [Scan.isNameStart] using hc
  | integer hk hvalue =>
    rw [hk] at hl
    rw [Policy.integer, Policy.value?_settle_strict] at hvalue
    exact .integer (Numeral.nonneg_of_integer? hl hvalue)
  | fixed hk hvalue =>
    rw [hk] at hl
    obtain ⟨u, v, htext, hu, hv⟩ := hl
    rw [Policy.fixed, Policy.value?_settle_strict, htext] at hvalue
    obtain ⟨hvalue, hfinite⟩ := Option.filter_eq_some_iff.mp hvalue
    exact .fixed hfinite (Numeral.negative_of_fixed? hu hv hvalue)

/-! ## Tokens and their lexemes -/

/-- The symbol of a lexeme, as a strict policy converts it. -/
def Lexeme.symbol (l : Lexeme) : Symbol :=
  ⟨l.kind, l.leaf? .strict⟩

/-- The symbols of the lexemes of a source, without a semicolon behind them. -/
def symbols (source : String) : List Symbol :=
  Symbol.dropClosing (((scan source).filterMap Except.toOption).map Lexeme.symbol)

/-- The node that an id means, or any where it means none. -/
def Arena.valueAt (a : Arena) (id : NodeId) : Node :=
  (a.node? id).getD (.identifier "")

/-- The token is of the kind of the lexeme, which converts, and carries the id of its leaf. -/
structure Token.StandsFor (policy : Policy) (a : Arena) (t : Token) (l : Lexeme) : Prop where
  kind_eq : t.kind = l.kind
  converts : l.leaf policy ≠ some .refused
  payload : ∀ node, l.leaf? policy = some node → ∃ id, t.payload = some id ∧ a.node? id = some node

theorem Lexeme.IsValue.kind_eq {policy : Policy} {l : Lexeme} {node : Node} (h : l.IsValue policy node) :
    node.kind = l.kind := by
  cases h with
  | identifier hk | integer hk _ | fixed hk _ => exact hk.symm

section

variable {policy : Policy} {a b : Arena} {t : Token} {l : Lexeme} {w : List Token} {ls : List Lexeme}

theorem forall₂_standsFor_mint (h : Convert policy ls) (hb : (a.append (leaves policy ls)).Extends b) :
    List.Forall₂ (Token.StandsFor policy b) ((mint policy a ls).map Prod.fst) ls := by
  induction ls generalizing a with
  | nil => exact .nil
  | cons l ls ih =>
    rw [mint]
    rw [leaves, List.filterMap_cons] at hb
    cases hl : l.leaf? policy with
    | none =>
      rw [hl] at hb
      refine .cons ⟨rfl, h.head, fun node hnode => ?_⟩ (ih h.tail hb)
      cases hl.symm.trans hnode
    | some node =>
      rw [hl] at hb
      have hrest : ((a.push node).append (leaves policy ls)).Extends b := by
        rwa [Arena.push_eq_append, Arena.append_append]
      have hpush : (a.push node).Extends b := Arena.Extends.trans ⟨leaves policy ls, rfl⟩ hrest
      refine .cons ⟨rfl, h.head, fun node' hnode => ⟨a.nextId, rfl, ?_⟩⟩ (ih h.tail hrest)
      cases hl.symm.trans hnode
      exact hpush.node? (a.node?_push_nextId node)

theorem exists_standsFor (h : List.Forall₂ (Token.StandsFor policy a) w ls) (ht : t ∈ w) :
    ∃ l ∈ ls, t.StandsFor policy a l := by
  induction h with
  | nil => cases ht
  | cons hl _ ih =>
    rcases List.mem_cons.mp ht with rfl | ht
    · exact ⟨_, List.mem_cons_self, hl⟩
    · obtain ⟨l, hmem, hl⟩ := ih ht
      exact ⟨l, List.mem_cons_of_mem _ hmem, hl⟩

namespace Token.StandsFor

theorem isLeaf (h : t.StandsFor policy a l) (hv : t.kind.isValued = true) :
    ∃ id, t.payload = some id ∧ a.IsLeaf id := by
  have hsome := isSome_leaf? h.converts
  rw [← h.kind_eq, hv] at hsome
  obtain ⟨node, hnode⟩ := Option.isSome_iff_exists.mp hsome
  obtain ⟨id, hid, hn⟩ := h.payload node hnode
  exact ⟨id, hid, node, hn, (Lexeme.IsValue.of_leaf? hnode).isLeaf⟩

/-- A token has the leaf of its lexeme. -/
theorem cases_leaf? (h : t.StandsFor policy a l) : leaf? t = none ∧ l.leaf? policy = none ∨
    ∃ id node, leaf? t = some id ∧ l.leaf? policy = some node ∧ a.node? id = some node := by
  have hsome := isSome_leaf? h.converts
  rw [← h.kind_eq] at hsome
  cases hnode : l.leaf? policy with
  | none =>
    rw [hnode] at hsome
    exact .inl ⟨leaf?_eq_none hsome.symm, rfl⟩
  | some node =>
    rw [hnode] at hsome
    obtain ⟨id, hid, hn⟩ := h.payload node hnode
    exact .inr ⟨id, node, (if_pos hsome.symm).trans hid, rfl, hn⟩

theorem symbolOf_eq (h : t.StandsFor .strict a l) : symbolOf a.valueAt t = l.symbol := by
  have hvalue : (leaf? t).map a.valueAt = l.leaf? .strict := by
    rcases h.cases_leaf? with ⟨ht, hnode⟩ | ⟨id, node, ht, hnode, hn⟩
    · rw [ht, hnode, Option.map_none]
    · rw [ht, hnode, Option.map_some, Arena.valueAt, hn, Option.getD_some]
  rw [symbolOf, hvalue, h.kind_eq, Lexeme.symbol]

/-- The leaf of a token keeps the value that the policy makes of the lexeme. -/
theorem valueAt_of_leaf? (h : t.StandsFor policy a l) (hb : a.Extends b) {id : NodeId} (hid : leaf? t = some id) :
    a.node? id = some (b.valueAt id) ∧ l.IsValue policy (b.valueAt id) := by
  rcases h.cases_leaf? with ⟨ht, -⟩ | ⟨id', node, ht, hnode, hn⟩
  · cases hid.symm.trans ht
  · cases hid.symm.trans ht
    rw [Arena.valueAt, hb.node? hn, Option.getD_some]
    exact ⟨hn, .of_leaf? hnode⟩

end Token.StandsFor

theorem map_symbolOf_eq (h : List.Forall₂ (Token.StandsFor .strict a) w ls) :
    w.map (symbolOf a.valueAt) = ls.map Lexeme.symbol := by
  induction h with
  | nil => rfl
  | cons hl _ ih => rw [List.map_cons, List.map_cons, hl.symbolOf_eq, ih]

end

/-! ## The program at a root -/

/-- The id means the root of a program with the given forms. -/
def Arena.Shows (a : Arena) (fs : List Form) (root : NodeId) : Prop :=
  ∃ ss, ProgramIsAt a ss root ∧ fs = ss.map (Statement.form a.valueAt)

theorem Arena.Shows.unique {a : Arena} {fs gs : List Form} {root : NodeId} (h : a.Shows fs root)
    (h' : a.Shows gs root) : fs = gs := by
  obtain ⟨ss, hss, rfl⟩ := h
  obtain ⟨ss', hss', rfl⟩ := h'
  rw [hss.unique hss']

/-- What is known of a root that a strict session gives for a source. -/
structure Arena.IsRootOf (a : Arena) (source : String) (root : NodeId) (w : List Token) (ss : List Statement) :
    Prop where
  derives : DerivesProgram w ss
  hasLeaves : HasLeaves a w
  kinded : Kinded a.valueAt w
  symbols_eq : Symbol.dropClosing (w.map (symbolOf a.valueAt)) = symbols source
  isAt : ProgramIsAt a ss root
  legible : ∀ f ∈ ss.map (Statement.form a.valueAt), f.Legible
  render_eq : (a.render root).toList = programText (ss.map (Statement.form a.valueAt))

namespace Session

variable {s s' : Session} {source source' : String} {root root' : NodeId}

/-- The leaves of a scan have legible values of the kinds of their tokens, which they keep while more is built. -/
theorem value_of_mem_mint {ls : List Lexeme} {a b : Arena} (hscan : scan source = ls.map .ok) (hls : Convert .strict ls)
    (hb : (a.append (leaves .strict ls)).Extends b) {t : Token} (ht : t ∈ (mint .strict a ls).map Prod.fst)
    {id : NodeId} (hid : leaf? t = some id) :
    (a.append (leaves .strict ls)).HasLeaf id (b.valueAt id) ∧ (b.valueAt id).kind = t.kind ∧
      (b.valueAt id).IsLegible := by
  obtain ⟨l, hl, hstands⟩ := exists_standsFor (forall₂_standsFor_mint hls (Arena.extends_refl _)) ht
  obtain ⟨hnode, hvalue⟩ := hstands.valueAt_of_leaf? hb hid
  have hmem : .ok l ∈ scan source := hscan ▸ List.mem_map_of_mem hl
  exact ⟨⟨hnode, hvalue.isLeaf⟩, hvalue.kind_eq.trans hstands.kind_eq.symm,
    hvalue.isLegible (matches_of_mem_scan hmem)⟩

theorem exists_isRootOf (hs : s.options.policy = .strict) (h : (s.parse source).1 = .ok root) :
    ∃ w ss, (s.parse source).2.arena.IsRootOf source root w ss := by
  obtain ⟨ls, ss, hscan, hls, hss, rfl, harena⟩ := exists_derives_of_parse h
  rw [hs] at hls hss harena ⊢
  generalize (s.parse source).2.arena = a at harena ⊢
  have hext := extends_buildProgram ss (s.arena.append (leaves .strict ls))
  rw [← harena] at hext
  have hstands := forall₂_standsFor_mint hls hext
  have hleaf : ∀ x ∈ ss.flatMap Statement.leaves,
      (s.arena.append (leaves .strict ls)).HasLeaf x (a.valueAt x) ∧ (a.valueAt x).IsLegible := by
    rw [hss.leaves_eq]
    intro x hx
    obtain ⟨t, ht, hid⟩ := List.mem_filterMap.mp hx
    obtain ⟨hhas, -, hlegible⟩ := value_of_mem_mint hscan hls hext ht hid
    exact ⟨hhas, hlegible⟩
  refine ⟨_, ss, hss, fun t ht hv => ?_, fun t ht id hid => (value_of_mem_mint hscan hls hext ht hid).2.1,
    ?_, ?_, ?_, ?_⟩
  · obtain ⟨l, -, hl⟩ := exists_standsFor hstands ht
    exact hl.isLeaf hv
  · have hlexemes : (scan source).filterMap Except.toOption = ls := by
      rw [hscan, List.filterMap_map]
      exact List.filterMap_some
    rw [map_symbolOf_eq hstands, symbols, hlexemes]
  · rw [harena]
    exact programIsAt_buildProgram hss.ne_nil fun x hx => (hleaf x hx).1.isLeaf
  · intro f hf node hnode
    obtain ⟨statement, hstatement, rfl⟩ := List.mem_map.mp hf
    rw [Statement.leaves_form] at hnode
    obtain ⟨x, hx, rfl⟩ := List.mem_map.mp hnode
    exact (hleaf x (List.mem_flatMap.mpr ⟨statement, hstatement, hx⟩)).2
  · have hrender := render_buildProgram fun x hx => (hleaf x hx).1
    rwa [← harena] at hrender

end Session

namespace Arena.IsRootOf

variable {a b : Arena} {source source' : String} {root root' : NodeId} {w w' : List Token} {ss ss' : List Statement}

theorem shows_iff (h : a.IsRootOf source root w ss) (fs : List Form) :
    a.Shows fs root ↔ fs = ss.map (Statement.form a.valueAt) :=
  ⟨fun hfs => hfs.unique ⟨ss, h.isAt, rfl⟩, fun hfs => ⟨ss, h.isAt, hfs⟩⟩

theorem render_eq_iff (h : a.IsRootOf source root w ss) (h' : b.IsRootOf source' root' w' ss') :
    a.render root = b.render root' ↔ ss.map (Statement.form a.valueAt) = ss'.map (Statement.form b.valueAt) := by
  rw [← String.toList_inj, h.render_eq, h'.render_eq]
  exact ⟨programText_injective h.legible h'.legible, congrArg programText⟩

theorem map_form_eq_iff (h : a.IsRootOf source root w ss) (h' : b.IsRootOf source' root' w' ss') :
    ss.map (Statement.form a.valueAt) = ss'.map (Statement.form b.valueAt) ↔ symbols source = symbols source' := by
  rw [h.derives.map_form_eq_iff h'.derives h.kinded h'.kinded h'.hasLeaves, h.symbols_eq, h'.symbols_eq]

end Arena.IsRootOf

namespace Session

variable {s s' : Session} {source source' : String} {root root' : NodeId}

/-- Strict sessions with any limits and anything in their arenas render the roots of two sources alike exactly if these
have the same lexemes, with numerals taken by kind and value and a semicolon behind the last statement left out. That is
so exactly if the roots show the same forms; each of them shows one program, so different programs are never rendered
alike. -/
theorem render_parse_eq_iff (hs : s.options.policy = .strict) (hs' : s'.options.policy = .strict)
    (h : (s.parse source).1 = .ok root) (h' : (s'.parse source').1 = .ok root') :
    let a := (s.parse source).2.arena
    let b := (s'.parse source').2.arena
    (a.render root = b.render root' ↔ symbols source = symbols source') ∧
      ∃ fs fs', (∀ gs, a.Shows gs root ↔ gs = fs) ∧ (∀ gs, b.Shows gs root' ↔ gs = fs') ∧
        (a.render root = b.render root' ↔ fs = fs') := by
  obtain ⟨w, ss, hroot⟩ := exists_isRootOf hs h
  obtain ⟨w', ss', hroot'⟩ := exists_isRootOf hs' h'
  have hforms := hroot.render_eq_iff hroot'
  exact ⟨hforms.trans (hroot.map_form_eq_iff hroot'), _, _, hroot.shows_iff, hroot'.shows_iff, hforms⟩

/-- Blanks, a zero in front of a numeral and a semicolon at the end are not seen in a rendering; parentheses are. -/
theorem render_parse_sign :
    let s := ((new {}).parse "y").2
    let s' := new { maxNesting := 1 }
    (s.parse "neg - 1.5;").1 = .ok ⟨0, 3⟩ ∧ (s'.parse "neg-01.50").1 = .ok ⟨0, 2⟩ ∧
      (s'.parse "neg-(1.5)").1 = .ok ⟨0, 3⟩ ∧
      (s.parse "neg - 1.5;").2.arena.render ⟨0, 3⟩ = (s'.parse "neg-01.50").2.arena.render ⟨0, 2⟩ ∧
      (s.parse "neg - 1.5;").2.arena.render ⟨0, 3⟩ ≠ (s'.parse "neg-(1.5)").2.arena.render ⟨0, 3⟩ := by
  intro s s'
  have h : (s.parse "neg - 1.5;").1 = .ok ⟨0, 3⟩ := by decide +kernel
  have h₁ : (s'.parse "neg-01.50").1 = .ok ⟨0, 2⟩ := by decide +kernel
  have h₂ : (s'.parse "neg-(1.5)").1 = .ok ⟨0, 3⟩ := by decide +kernel
  have hsame : symbols "neg - 1.5;" = symbols "neg-01.50" := by decide +kernel
  have hdifferent : symbols "neg - 1.5;" ≠ symbols "neg-(1.5)" := by decide +kernel
  have hs : s.options.policy = .strict := by decide +kernel
  refine ⟨h, h₁, h₂, (render_parse_eq_iff hs rfl h h₁).1.mpr hsame, fun hrender => ?_⟩
  exact hdifferent ((render_parse_eq_iff hs rfl h h₂).1.mp hrender)

end Session

end Formula
