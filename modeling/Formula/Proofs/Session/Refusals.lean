import Formula.Proofs.Lexeme.Layout
import Formula.Proofs.Session.Journal
import Formula.Proofs.Session.Relaxation

/-!
# Refused numerals

A strict policy refuses the numerals that a permissive one converts in part and notes, and besides them those that are
numbers without a finite value (`Lexeme.refused_leaf_iff`). A permissive session notes what it converts in part up to
the first stray character, and nothing else of a source is converted (`exists_journal_parse`). So a strict session
fails at a numeral of a source exactly if a permissive one notes a conversion in it, or takes a number from it that is
not finite (`malformedNumber_iff_noted`).
-/

namespace Formula

/-- The text is a number, but no finite one: a decimal that is out of range, or the name of an infinity or of no
number. -/
def Numeral.IsNonFinite (text : String) : Prop :=
  ∃ x, fixed? text.toList = some x ∧ x.isFinite = false

/-! ## Conversions -/

namespace Policy

/-- Strict policies refuse the integers that permissive ones convert in part. -/
theorem refused_integer_iff (text : String) :
    strict.integer text = .refused ↔ ∃ value, permissive.integer text = .leading value := by
  cases h : Numeral.integer? text.toList <;> simp [integer, settle, h]

/-- Strict policies refuse the fixed-point numbers that permissive ones convert in part, and those that are whole but
not finite. -/
theorem refused_fixed_iff (text : String) :
    strict.fixed text = .refused ↔
      (∃ value, permissive.fixed text = .leading value) ∨ Numeral.IsNonFinite text := by
  cases h : Numeral.fixed? text.toList with
  | none => simp [fixed, settle, h]
  | some x => cases hx : x.isFinite <;> simp [fixed, settle, h, Option.filter, hx, Numeral.IsNonFinite]

end Policy

namespace Conversion

variable {α : Type}

theorem map_eq_leading_iff {f : α → Node} {c : Conversion α} :
    (∃ leaf, c.map f = .leading leaf) ↔ ∃ value, c = .leading value := by
  cases c <;> simp [map]

theorem map_eq_refused_iff {f : α → Node} {c : Conversion α} : c.map f = .refused ↔ c = .refused := by
  cases c <;> simp [map]

/-- A conversion is noted exactly if it is one of a part. -/
theorem converted_mem_events {c : Conversion Node} {text text' : String} {leaf : Node} :
    .converted text' leaf ∈ c.events text ↔ text' = text ∧ c = .leading leaf := by
  cases c <;> simp [events, eq_comm]

end Conversion

namespace Lexeme

/-- A strict policy refuses the lexemes that a permissive one converts in part, and those of numbers that are not
finite. -/
theorem refused_leaf_iff (l : Lexeme) :
    l.leaf .strict = some .refused ↔
      (∃ leaf, l.leaf .permissive = some (.leading leaf)) ∨ l.kind = .fixed ∧ Numeral.IsNonFinite l.text := by
  obtain ⟨kind, text, span⟩ := l
  cases kind with
  | integer =>
    simp only [leaf, Option.some.injEq, Conversion.map_eq_refused_iff, Conversion.map_eq_leading_iff,
      Policy.refused_integer_iff, reduceCtorEq, false_and, or_false]
  | fixed =>
    simp only [leaf, Option.some.injEq, Conversion.map_eq_refused_iff, Conversion.map_eq_leading_iff,
      Policy.refused_fixed_iff, true_and]
  | identifier | plus | minus | star | slash | leftParen | rightParen | assign | semicolon => simp [leaf]

/-- With the token of a lexeme its conversion is noted exactly if it is one of a part. -/
theorem converted_mem_noted {policy : Policy} {l : Lexeme} {t : Token} {text : String} {leaf : Node} :
    .converted text leaf ∈ l.noted policy t ↔ text = l.text ∧ l.leaf policy = some (.leading leaf) := by
  cases hleaf : l.leaf policy with
  | none => simp [noted_of_leaf_eq_none hleaf]
  | some conversion =>
    rw [← events_of_leaf hleaf, List.mem_append, Conversion.converted_mem_events]
    simp

end Lexeme

namespace Session

variable {s s' : Session}

/-- A parse notes that it has converted a part of the lexemes before the first fault of which that holds, and of no
others. -/
theorem exists_journal_parse (s : Session) (source : String) :
    ∃ passage, (s.parse source).2.journal.toList = s.journal.toList ++ passage ∧
      ∀ text leaf, .converted text leaf ∈ passage ↔
        ∃ l ∈ accepted s.options.policy (scan source), text = l.text ∧
          l.leaf s.options.policy = some (.leading leaf) := by
  have hjournal := s.journal_parseWith (.ofSource source) (.grammar s.options.maxNesting)
  obtain ⟨taken, htaken, -⟩ := s.exists_handed_eq (.ofSource source) (.grammar s.options.maxNesting)
  have hlexemes : taken.map Prod.fst = accepted s.options.policy (scan source) := by
    have hhanded : (Engine.grammar s.options.maxNesting).handed (s.attach (.ofSource source)).2 =
        (s.attach (.ofSource source)).2.drainHanded := List.append_nil _
    have hdrain : (s.attach (.ofSource source)).2.drainHanded.map Prod.fst =
        (accepted s.options.policy (scan source)).map .lexeme := Bench.map_fst_drainHanded rfl rfl
    rw [← hhanded, htaken, List.map_map] at hdrain
    refine List.map_injective_iff.mpr (fun l l' h => Supply.Entry.lexeme.inj h) ?_
    rw [List.map_map]
    exact hdrain
  rw [parseWith_grammar, htaken] at hjournal
  simp only [List.append_assoc] at hjournal
  refine ⟨_, hjournal, fun text leaf => ?_⟩
  -- an outcome and the boundaries of a parse are no conversions
  have houtcome : .converted text leaf ∉ (Ending.returned (s.parse source).1).events (s.parse source).2.arena := by
    rcases (s.parse source).1 with f | root <;> simp [Ending.events]
  have htokens : .converted text leaf ∈ taken.flatMap (fun p => p.1.noted s.options.policy p.2) ↔
      ∃ l ∈ accepted s.options.policy (scan source), text = l.text ∧
        l.leaf s.options.policy = some (.leading leaf) := by
    simp only [← hlexemes, List.mem_flatMap, List.mem_map, Lexeme.converted_mem_noted]
    constructor
    · rintro ⟨p, hp, hconverted⟩
      exact ⟨p.1, ⟨p, hp, rfl⟩, hconverted⟩
    · rintro ⟨_, ⟨p, hp, rfl⟩, hconverted⟩
      exact ⟨p, hp, hconverted⟩
  rw [← htokens]
  simp [houtcome, Supply.Entry.noted, List.flatMap_map]

/-- A strict session fails at the first numeral that it refuses, if there is one before the first stray character. -/
theorem exists_malformedNumber_iff (h : s.options.policy = .strict) (source : String) :
    (∃ offset text, (s.parse source).1 = .error (.malformedNumber offset text)) ↔
      ∃ l ∈ accepted .permissive (scan source), l.leaf .strict = some .refused := by
  have hnone {ls : List Lexeme} (hls : Convert s.options.policy ls) :
      ¬ ∃ l ∈ ls, l.leaf .strict = some .refused := by
    rintro ⟨l, hl, hrefused⟩
    exact hls l hl (h ▸ hrefused)
  rcases s.result_cases source with
    ⟨ls, e, es, f, hscan, hls, hf, hresult⟩ | ⟨ls, span, hscan, hls, -, hresult⟩ | ⟨ls, hscan, hls, -, reading, hresult⟩
  · rw [hscan, accepted_append (convert_permissive ls), hresult]
    rcases fault_cases hscan hf with ⟨offset, text, rfl, rfl⟩ | ⟨-, l, rfl, rfl⟩
    · have hstray : accepted .permissive (.error (.unrecognized offset text) :: es) = [] := rfl
      rw [hstray, List.append_nil]
      exact iff_of_false (by simp) (hnone hls)
    · have hl : l ∈ accepted .permissive (.ok l :: es) := by
        rw [accepted, if_neg (convert_permissive [l]).head]
        exact List.mem_cons_self
      exact iff_of_true ⟨_, _, rfl⟩ ⟨l, List.mem_append_right _ hl, h ▸ (fault?_ok_eq_some.mp hf).1⟩
  · rw [hscan, accepted_map_ok (convert_permissive ls), hresult]
    exact iff_of_false (by simp) (hnone hls)
  · rw [hscan, accepted_map_ok (convert_permissive ls), hresult]
    exact iff_of_false (by cases reading <;> simp [Grammar.Reading.result]) (hnone hls)

/-- Strict policies refuse the integers that permissive ones note to convert in part, and of the fixed-point numbers
also those that have no finite value. So a strict session fails at a numeral of a source exactly if a permissive one
notes a conversion while it parses the source, or comes upon such a number before the first stray character. -/
theorem malformedNumber_iff_noted (hpermissive : s.options.policy = .permissive)
    (hstrict : s'.options.policy = .strict) (source : String) :
    (∀ text, Policy.strict.integer text = .refused ↔
      ∃ leaf, .converted text leaf ∈ ((Policy.permissive.integer text).map Node.integer).events text) ∧
    (∀ text, Policy.strict.fixed text = .refused ↔
      (∃ leaf, .converted text leaf ∈ ((Policy.permissive.fixed text).map Node.fixed).events text) ∨
        Numeral.IsNonFinite text) ∧
    ∃ passage, (s.parse source).2.journal.toList = s.journal.toList ++ passage ∧
      ((∃ offset text, (s'.parse source).1 = .error (.malformedNumber offset text)) ↔
        (∃ text leaf, .converted text leaf ∈ passage) ∨
          ∃ l ∈ accepted .permissive (scan source), l.kind = .fixed ∧ Numeral.IsNonFinite l.text) := by
  refine ⟨fun text => ?integer, fun text => ?fixed, ?parse⟩
  case integer =>
    simp only [Conversion.converted_mem_events, true_and, Conversion.map_eq_leading_iff, Policy.refused_integer_iff]
  case fixed =>
    simp only [Conversion.converted_mem_events, true_and, Conversion.map_eq_leading_iff, Policy.refused_fixed_iff]
  case parse =>
    obtain ⟨passage, hjournal, hpassage⟩ := s.exists_journal_parse source
    rw [hpermissive] at hpassage
    refine ⟨passage, hjournal, (exists_malformedNumber_iff hstrict source).trans ?_⟩
    constructor
    · rintro ⟨l, hl, hrefused⟩
      rcases l.refused_leaf_iff.mp hrefused with ⟨leaf, hleaf⟩ | hnonfinite
      · exact .inl ⟨l.text, leaf, (hpassage l.text leaf).mpr ⟨l, hl, rfl, hleaf⟩⟩
      · exact .inr ⟨l, hl, hnonfinite⟩
    · rintro (⟨text, leaf, hmem⟩ | ⟨l, hl, hnonfinite⟩)
      · obtain ⟨l, hl, -, hleaf⟩ := (hpassage text leaf).mp hmem
        exact ⟨l, hl, l.refused_leaf_iff.mpr (.inl ⟨leaf, hleaf⟩)⟩
      · exact ⟨l, hl, l.refused_leaf_iff.mpr (.inr hnonfinite)⟩

/-- A strict session refuses the numeral that is too long for an integer, so a permissive one notes it. -/
theorem malformedNumber_iff_noted_long :
    (new ⟨.permissive, 4⟩).options.policy = .permissive ∧ (new ⟨.strict, 256⟩).options.policy = .strict ∧
      ∃ text leaf, .converted text leaf ∈
        ((new ⟨.permissive, 4⟩).parse "a * 99999999999999999999").2.journal.toList := by
  obtain ⟨-, -, passage, hjournal, hiff⟩ :=
    @malformedNumber_iff_noted (new ⟨.permissive, 4⟩) (new ⟨.strict, 256⟩) rfl rfl "a * 99999999999999999999"
  have hstrict : ((new ⟨.strict, 256⟩).parse "a * 99999999999999999999").1 =
      .error (.malformedNumber 4 "99999999999999999999") := by decide +kernel
  have hkinds : ∀ l ∈ accepted .permissive (scan "a * 99999999999999999999"), l.kind ≠ .fixed := by decide +kernel
  refine ⟨rfl, rfl, ?_⟩
  rw [hjournal]
  rcases hiff.mp ⟨4, _, hstrict⟩ with hconverted | ⟨l, hl, hfixed, -⟩
  · exact hconverted
  · exact absurd hfixed (hkinds l hl)

/-- A source that is one fixed-point numeral without a finite value is refused, but nothing is noted of it. -/
theorem unnoted_of_isNonFinite {source : String} (hfixed : (Role.lexeme .fixed).Matches source.toList)
    (h : Numeral.IsNonFinite source) (limit : Nat) :
    (∃ offset text, ((new ⟨.strict, limit⟩).parse source).1 = .error (.malformedNumber offset text)) ∧
      ∀ text leaf, .converted text leaf ∉ ((new ⟨.permissive, limit⟩).parse source).2.journal.toList := by
  have hspaced : (Layout.word "" .fixed source (.last "")).IsSpaced := .word .nil hfixed nofun (.last .nil)
  have hscan : scan source = [.ok ⟨.fixed, source, ⟨0, source.utf8ByteSize⟩⟩] := by
    simpa [Layout.source, Layout.lexemes] using Layout.scan_source hspaced
  obtain ⟨x, hx, hfinite⟩ := h
  have hwhole : (⟨.fixed, source, ⟨0, source.utf8ByteSize⟩⟩ : Lexeme).leaf .permissive =
      some (.whole (.fixed x)) := by
    simp [Lexeme.leaf, Policy.fixed, hx, Policy.settle, Conversion.map]
  have haccepted : accepted .permissive (scan source) = [⟨.fixed, source, ⟨0, source.utf8ByteSize⟩⟩] := by
    simp [hscan, accepted, hwhole]
  constructor
  · rw [exists_malformedNumber_iff rfl, haccepted]
    exact ⟨_, List.mem_singleton_self _, (Lexeme.refused_leaf_iff _).mpr (.inr ⟨rfl, x, hx, hfinite⟩)⟩
  · intro text leaf hmem
    obtain ⟨passage, hjournal, hpassage⟩ := (new ⟨.permissive, limit⟩).exists_journal_parse source
    rw [hjournal] at hmem
    obtain ⟨l, hl, -, hleaf⟩ := (hpassage text leaf).mp hmem
    obtain rfl := List.mem_singleton.mp (haccepted ▸ hl)
    cases hwhole.symm.trans hleaf

/-- A strict policy refuses a decimal that is out of range, but a permissive one notes nothing of it, nor does a
permissive session that reads one. -/
theorem refused_unnoted :
    Policy.strict.fixed "1e400" = .refused ∧
    ((Policy.permissive.fixed "1e400").map Node.fixed).events "1e400" = [] ∧
    let source := "1" ++ String.ofList (List.replicate 309 '0') ++ ".0"
    (∃ offset text, ((new ⟨.strict, 256⟩).parse source).1 = .error (.malformedNumber offset text)) ∧
    ∀ text leaf, .converted text leaf ∉ ((new ⟨.permissive, 256⟩).parse source).2.journal.toList := by
  have hwhole : Policy.permissive.fixed "1e400" = .whole (.infinity false) := by decide +kernel
  have htext (n : Nat) : ("1" ++ String.ofList (List.replicate n '0') ++ ".0").toList =
      '1' :: List.replicate n '0' ++ ['.', '0'] := by simp
  have hdigits (n : Nat) : IsDigits ('1' :: List.replicate n '0') :=
    ⟨nofun, List.forall_mem_cons.mpr ⟨rfl, fun c hc => List.eq_of_mem_replicate hc ▸ rfl⟩⟩
  have hvalue : Numeral.fixed? ('1' :: List.replicate 309 '0' ++ ['.', '0']) = some (.infinity false) := by
    decide +kernel
  refine ⟨by decide +kernel, by rw [hwhole]; rfl, unnoted_of_isNonFinite ⟨_, _, htext 309, hdigits 309, ?_⟩ ?_ 256⟩
  · exact ⟨nofun, List.forall_mem_singleton.mpr rfl⟩
  · exact ⟨_, (congrArg Numeral.fixed? (htext 309)).trans hvalue, rfl⟩

end Session

end Formula
