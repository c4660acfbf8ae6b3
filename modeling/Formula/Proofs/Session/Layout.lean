import Formula.Proofs.Grammar.Openings
import Formula.Proofs.Lexeme.Layout
import Formula.Proofs.Session.History

/-!
# Sources that differ between their words

A parse takes from a lexeme its kind and its text, and its place only to say where something is wrong. So two sources
with the same words, which stand at different places, come to the same in a session: to the same root, or to failures
of one kind that are about the same word (`parse_of_map_bare`). Whatever stands between the words of a source, as long
as it keeps them apart, their tree reads the same (`parse_layouts`).
-/

namespace Formula

open Grammar

/-- The lexeme as if it stood at the start of a source. -/
def Lexeme.bare (l : Lexeme) : Lexeme :=
  { l with span := .origin }

/-- What two parses come to whose lexemes have the same words: roots that are related, or failures of one kind at
lexemes of the same position, or behind the last of either. -/
inductive ComesToSame (r : NodeId → NodeId → Prop) (ls ls' : List Lexeme) :
    Except Failure NodeId → Except Failure NodeId → Prop
  | root {x y : NodeId} : r x y → ComesToSame r ls ls' (.ok x) (.ok y)
  | malformedNumber {i : Nat} {l l' : Lexeme} : ls[i]? = some l → ls'[i]? = some l' → l'.text = l.text →
      ComesToSame r ls ls' (.error (.malformedNumber l.span.start l.text))
        (.error (.malformedNumber l'.span.start l'.text))
  | tooDeep {i : Nat} {l l' : Lexeme} (limit : Nat) : ls[i]? = some l → ls'[i]? = some l' →
      ComesToSame r ls ls' (.error (.tooDeep l.span.start limit)) (.error (.tooDeep l'.span.start limit))
  | unexpected (i : Nat) (expected : String) :
      ComesToSame r ls ls' (.error (.unexpected (Bench.offsetAt (ls.map Lexeme.span) i) expected))
        (.error (.unexpected (Bench.offsetAt (ls'.map Lexeme.span) i) expected))

/-- The roots of the second parse may be exchanged for others. -/
theorem ComesToSame.of_map {r r' : NodeId → NodeId → Prop} {ls ls' : List Lexeme}
    {result result' : Except Failure NodeId} {f g : NodeId → NodeId}
    (h : ComesToSame r ls ls' result (result'.map f)) (hr : ∀ x y, r x (f y) → r' x (g y)) :
    ComesToSame r' ls ls' result (result'.map g) := by
  cases result' with
  | ok y =>
    cases h with
    | root hxy => exact .root (hr _ y hxy)
  | error failure =>
    cases h with
    | malformedNumber hl hl' htext => exact .malformedNumber hl hl' htext
    | tooDeep limit hl hl' => exact .tooDeep limit hl hl'
    | unexpected i expected => exact .unexpected i expected

theorem Layout.map_bare_lexemes (t : Layout) (n : Nat) :
    (t.lexemes n).map Lexeme.bare = t.words.map fun (kind, text) => ⟨kind, text, .origin⟩ := by
  induction t generalizing n with
  | last gap => rfl
  | word gap kind text rest ih => exact congrArg _ (ih _)

/-! ## What a parse takes from lexemes -/

section

variable {policy : Policy} {ls ls' : List Lexeme}

theorem leaf_bare (policy : Policy) (l : Lexeme) : l.bare.leaf policy = l.leaf policy := rfl

theorem leaves_map_bare (policy : Policy) (ls : List Lexeme) : leaves policy (ls.map Lexeme.bare) = leaves policy ls :=
  List.filterMap_map

theorem leaves_of_map_bare (policy : Policy) (h : ls.map Lexeme.bare = ls'.map Lexeme.bare) :
    leaves policy ls' = leaves policy ls := by
  rw [← leaves_map_bare, ← h, leaves_map_bare]

theorem Convert.of_map_bare (h : ls.map Lexeme.bare = ls'.map Lexeme.bare) (hls : Convert policy ls) :
    Convert policy ls' := by
  have hbare {ls : List Lexeme} : Convert policy (ls.map Lexeme.bare) ↔ Convert policy ls := List.forall_mem_map
  rwa [← hbare, ← h, hbare]

theorem map_fst_mint_map_bare (policy : Policy) (a : Arena) (ls : List Lexeme) :
    (mint policy a (ls.map Lexeme.bare)).map Prod.fst = (mint policy a ls).map Prod.fst := by
  induction ls generalizing a with
  | nil => rfl
  | cons l ls ih =>
    have hleaf : l.bare.leaf? policy = l.leaf? policy := rfl
    rw [List.map_cons, mint, mint, hleaf]
    split <;> exact List.cons_eq_cons.mpr ⟨rfl, ih _⟩

/-- Lexemes convert, or there is a first that is refused. -/
theorem convert_cases (policy : Policy) (ls : List Lexeme) :
    (∃ before l behind, ls = before ++ l :: behind ∧ Convert policy before ∧ l.leaf policy = some .refused) ∨
      Convert policy ls := by
  have hinjective : Function.Injective (List.map (Except.ok (ε := Failure) (α := Lexeme))) :=
    List.map_injective_iff.mpr fun _ _ => Except.ok.inj
  rcases scan_cases policy (ls.map .ok) with ⟨before, e, es, f, h, hbefore, hf⟩ | ⟨ls', h, hls⟩
  · obtain ⟨before', rest, rfl, hbefore', hrest⟩ := List.map_eq_append_iff.mp h
    obtain ⟨l, behind, rfl, rfl, -⟩ := List.map_eq_cons_iff.mp hrest
    obtain rfl := hinjective hbefore'
    exact .inl ⟨_, l, behind, rfl, hbefore, (fault?_ok_eq_some.mp hf).1⟩
  · obtain rfl := hinjective h
    exact .inr hls

/-- Lexemes with the words of others are split where those are. -/
theorem exists_split_of_map_bare {before behind : List Lexeme} {l : Lexeme}
    (h : (before ++ l :: behind).map Lexeme.bare = ls'.map Lexeme.bare) :
    ∃ before' l' behind', ls' = before' ++ l' :: behind' ∧ before.map Lexeme.bare = before'.map Lexeme.bare ∧
      l'.bare = l.bare := by
  rw [List.map_append, List.map_cons] at h
  obtain ⟨before', rest, rfl, hbefore, hrest⟩ := List.map_eq_append_iff.mp h.symm
  obtain ⟨l', behind', rfl, hl, -⟩ := List.map_eq_cons_iff.mp hrest
  exact ⟨before', l', behind', rfl, hbefore.symm, hl⟩

/-- The first of the lexemes that nests too deep is at the same position, wherever they stand. -/
theorem firstTooDeep_of_map_bare (limit : Nat) (h : ls.map Lexeme.bare = ls'.map Lexeme.bare) :
    let first (ls : List Lexeme) := Nesting.start.firstTooDeep limit (ls.map fun l => (l.kind, l.span))
    (first ls = none ∧ first ls' = none) ∨
      ∃ (i : Nat) (l l' : Lexeme), ls[i]? = some l ∧ ls'[i]? = some l' ∧
        first ls = some l.span ∧ first ls' = some l'.span := by
  intro first
  have hfirst (ls : List Lexeme) : first ls =
      ((Nesting.start.depths ((ls.map Lexeme.bare).map Lexeme.kind)).findIdx? (limit < ·)).bind
        fun i => ls[i]?.map Lexeme.span := by
    rw [show first ls = _ from Nesting.firstTooDeep_eq .., List.map_map, List.map_map]
    simp [Function.comp_def, Lexeme.bare]
  rw [hfirst, hfirst, ← h]
  cases hi : (Nesting.start.depths ((ls.map Lexeme.bare).map Lexeme.kind)).findIdx? (limit < ·) with
  | none => exact .inl ⟨rfl, rfl⟩
  | some i =>
    obtain ⟨hlt, -⟩ := List.findIdx?_eq_some_iff_getElem.mp hi
    have hlength : ls'.length = ls.length := by simpa using congrArg List.length h.symm
    have hlt : i < ls.length := by simpa using hlt
    have hlt' : i < ls'.length := hlength ▸ hlt
    have hat : ls[i]? = some ls[i] := List.getElem?_eq_getElem hlt
    have hat' : ls'[i]? = some ls'[i] := List.getElem?_eq_getElem hlt'
    exact .inr ⟨i, ls[i], ls'[i], hat, hat', by simp [hat], by simp [hat']⟩

end

namespace Session

variable {source source' : String} {ls ls' : List Lexeme}

/-- A session comes to the same with two sources that have the same words, and makes the same nodes. -/
theorem parse_of_map_bare (s : Session) (h : scan source = ls.map .ok) (h' : scan source' = ls'.map .ok)
    (hwords : ls.map Lexeme.bare = ls'.map Lexeme.bare) :
    ComesToSame Eq ls ls' (s.parse source).1 (s.parse source').1 ∧
      (s.parse source').2.arena = (s.parse source).2.arena := by
  rcases convert_cases s.options.policy ls with ⟨before, l, behind, rfl, hbefore, hl⟩ | hls
  · obtain ⟨before', l', behind', rfl, hbare, hbare'⟩ := exists_split_of_map_bare hwords
    have htext : l'.bare.text = l.bare.text := congrArg Lexeme.text hbare'
    have hl' : l'.leaf s.options.policy = some .refused := by rwa [← leaf_bare, hbare', leaf_bare]
    have hlength : before.length = before'.length := by simpa using congrArg List.length hbare
    rw [List.map_append, List.map_cons] at h h'
    obtain ⟨hfails, ha⟩ := failsWith_fault h hbefore (fault?_ok_eq_some.mpr ⟨hl, rfl⟩)
    obtain ⟨hfails', ha'⟩ := failsWith_fault h' (hbefore.of_map_bare hbare) (fault?_ok_eq_some.mpr ⟨hl', rfl⟩)
    rw [hfails.result, hfails'.result, ha, ha', leaves_of_map_bare _ hbare]
    have hat : (before ++ l :: behind)[before.length]? = some l := by simp
    have hat' : (before' ++ l' :: behind')[before.length]? = some l' := by simp [hlength]
    exact ⟨.malformedNumber hat hat' htext, rfl⟩
  · have hls' := hls.of_map_bare hwords
    have hleaves := leaves_of_map_bare s.options.policy hwords
    have htokens : (mint s.options.policy s.arena ls').map Prod.fst =
        (mint s.options.policy s.arena ls).map Prod.fst := by
      rw [← map_fst_mint_map_bare, ← hwords, map_fst_mint_map_bare]
    rcases firstTooDeep_of_map_bare s.options.maxNesting hwords with ⟨hn, hn'⟩ | ⟨i, l, l', hl, hl', hn, hn'⟩
    · obtain ⟨hresult, ha⟩ := parse_of_scan h hls hn
      obtain ⟨hresult', ha'⟩ := parse_of_scan h' hls' hn'
      rw [htokens, hleaves] at hresult' ha'
      rw [hresult, hresult', ha, ha']
      refine ⟨?_, rfl⟩
      cases (read ((mint s.options.policy s.arena ls).map Prod.fst).toArray
        (s.arena.append (leaves s.options.policy ls))).1 with
      | program root => exact .root rfl
      | stuck position expected => exact .unexpected position (Class.describe expected)
    · obtain ⟨hfails, ha⟩ := failsWith_tooDeep h hls hn
      obtain ⟨hfails', ha'⟩ := failsWith_tooDeep h' hls' hn'
      rw [hfails.result, hfails'.result, ha, ha', hleaves]
      exact ⟨.tooDeep s.options.maxNesting hl hl', rfl⟩

/-- Sessions with the same options come to the same with two sources that have the same words, whatever they did
before, and the trees that they give read the same. -/
theorem comesToSame_calls (options : Options) (cs cs' : List Call) (h : scan source = ls.map .ok)
    (h' : scan source' = ls'.map .ok) (hwords : ls.map Lexeme.bare = ls'.map Lexeme.bare) :
    let p := ((new options).calls cs).parse source
    let p' := ((new options).calls cs').parse source'
    ComesToSame (fun root root' => p.2.arena.render root = p'.2.arena.render root') ls ls' p.1 p'.1 := by
  intro p p'
  -- the first session also parses the second source, as does a new one, which is between the two
  obtain ⟨hsame, harena⟩ := parse_of_map_bare ((new options).calls cs) h h' hwords
  obtain ⟨hresult, hshifted, hid⟩ := parse_calls options cs source'
  obtain ⟨hresult', hshifted', hid'⟩ := parse_calls options cs' source'
  rw [hresult] at hsame
  rw [show p'.1 = _ from hresult']
  refine hsame.of_map ?_
  rintro _ root rfl
  have hrender := Arena.render_appendShifted ((new options).calls cs).arena hid root
  have hrender' := Arena.render_appendShifted ((new options).calls cs').arena hid' root
  rw [← hshifted, harena] at hrender
  rw [← hshifted'] at hrender'
  exact hrender.trans hrender'.symm

/-- The scan of words that are kept apart by blanks and comments finds exactly these words, each at its place. Another
source with the same words, kept apart in another way, comes to the same with the same options: to a tree that reads the
same, or to a failure of the same kind at the same word. -/
theorem parse_layouts {t : Layout} (h : t.IsSpaced) :
    scan t.source = (t.lexemes 0).map .ok ∧
    ∀ t' : Layout, t'.IsSpaced → t'.words = t.words → ∀ (options : Options) (cs cs' : List Call),
      let p := ((new options).calls cs).parse t.source
      let p' := ((new options).calls cs').parse t'.source
      ComesToSame (fun root root' => p.2.arena.render root = p'.2.arena.render root') (t.lexemes 0) (t'.lexemes 0)
        p.1 p'.1 := by
  refine ⟨Layout.scan_source h, fun t' h' hwords options cs cs' => ?_⟩
  refine comesToSame_calls options cs cs' (Layout.scan_source h) (Layout.scan_source h') ?_
  rw [Layout.map_bare_lexemes, Layout.map_bare_lexemes, hwords]

/-- Two layouts of a quotient, of which one has comments. -/
theorem parse_layouts_quotient :
    let plain : Layout := .word "" .identifier "x" (.word " " .slash "/" (.word " " .integer "2" (.last "")))
    let commented : Layout :=
      .word "//y\n" .identifier "x" (.word "\t//=\n" .slash "/" (.word "\r\n" .integer "2" (.last " //é")))
    plain.source = "x / 2" ∧ commented.source = "//y\nx\t//=\n/\r\n2 //é" ∧
      scan plain.source = (plain.lexemes 0).map .ok ∧
      ((new {}).parse plain.source).1 = .ok ⟨0, 2⟩ ∧
      ∃ root, ((new {}).parse commented.source).1 = .ok root ∧
        ((new {}).parse plain.source).2.arena.render ⟨0, 2⟩ =
          ((new {}).parse commented.source).2.arena.render root := by
  intro plain commented
  have hx : (Role.lexeme .identifier).Matches "x".toList := ⟨'x', [], rfl, .inl rfl, nofun⟩
  have hslash : (Role.lexeme .slash).Matches "/".toList := ⟨'/', rfl, rfl⟩
  have htwo : (Role.lexeme .integer).Matches "2".toList := ⟨nofun, List.forall_mem_singleton.mpr rfl⟩
  have hspace (s : List Char) : Scan.Skipped " ".toList s := .blanks (w := [' ']) (by simp) .nil
  have hplain : plain.IsSpaced := by
    refine .word .nil hx ?_ (.word (hspace _) hslash ?_ (.word (hspace _) htwo ?_ (.last .nil))) <;> decide +kernel
  have hcommented : commented.IsSpaced := by
    have hfirst (s : List Char) : Scan.Skipped ('/' :: '/' :: ['y'] ++ (['\n'] ++ [])) s :=
      .comment (by decide) (by simp) (.blanks (by simp) .nil)
    have hsecond (s : List Char) : Scan.Skipped (['\t'] ++ ('/' :: '/' :: ['='] ++ (['\n'] ++ []))) s :=
      .blanks (by simp) (.comment (by decide) (by simp) (.blanks (by simp) .nil))
    have hthird (s : List Char) : Scan.Skipped (['\r', '\n'] ++ []) s := .blanks (by simp) .nil
    have hlast : Scan.Skipped ([' '] ++ ('/' :: '/' :: ['é'] ++ [])) [] :=
      .blanks (by simp) (.comment (by decide) (by simp) .nil)
    refine .word (hfirst _) hx ?_ (.word (hsecond _) hslash ?_ (.word (hthird _) htwo ?_ (.last hlast)))
    all_goals decide +kernel
  have hroot : ((new {}).parse plain.source).1 = .ok ⟨0, 2⟩ := by decide +kernel
  obtain ⟨hscan, hparse⟩ := parse_layouts hplain
  have hsame := hparse commented hcommented rfl {} [] []
  refine ⟨by decide +kernel, by decide +kernel, hscan, hroot, ?_⟩
  simp only [calls, List.foldl_nil, hroot] at hsame
  generalize (new {}).parse commented.source = p' at hsame
  obtain ⟨result, s'⟩ := p'
  cases hsame with
  | root h => exact ⟨_, rfl, h⟩

end Session

end Formula
