import Formula.Proofs.Lexeme.Partition
import Formula.Proofs.Nesting
import Formula.Proofs.Session.Leaves
import Formula.Proofs.Session.Phases

/-!
# Relaxed options

A permissive policy converts as a strict one does what that converts, and a limit does nothing but refuse what nests
deeper. So a source that a strict session does not refuse for a numeral or for its nesting comes to the same under every
policy and every larger limit (`parse_of_le`). A permissive session refuses no numeral, and a smaller limit refuses no
later token (`parse_relaxed`).
-/

namespace Formula

open Grammar

variable {policy : Policy} {l : Lexeme} {ls : List Lexeme} {a : Arena}

/-! ## Conversions -/

/-- Every policy takes what converts as a whole. -/
theorem Policy.settle_eq_strict {α : Type} {whole : Option α} {leading leading' : α}
    (h : strict.settle whole leading ≠ .refused) : policy.settle whole leading' = strict.settle whole leading := by
  cases whole with
  | none => exact absurd rfl h
  | some v => rfl

theorem Policy.fixed_eq_strict {text : String} (h : strict.fixed text ≠ .refused) :
    policy.fixed text = strict.fixed text := by
  cases policy with
  | strict => rfl
  | permissive =>
    -- a strict policy looks at finite numbers only, so one that it takes is there before it looks
    cases hv : Numeral.fixed? text.toList with
    | none => simp [fixed, settle, hv] at h
    | some v =>
      by_cases hfinite : v.isFinite = true
      · rw [fixed, fixed, hv, Option.filter_some_pos hfinite]
        rfl
      · rw [fixed, hv, Option.filter_some_neg (Bool.not_eq_true _ ▸ hfinite)] at h
        exact absurd rfl h

theorem Lexeme.leaf_eq_strict (h : l.leaf .strict ≠ some .refused) (policy : Policy) :
    l.leaf policy = l.leaf .strict := by
  obtain ⟨kind, text, span⟩ := l
  have hmap {α : Type} (f : α → Node) {c : Conversion α} (h : some (c.map f) ≠ some .refused) : c ≠ .refused :=
    fun hc => h (by rw [hc]; rfl)
  cases kind with
  | integer => exact congrArg (fun c => some (Conversion.map _ c)) (Policy.settle_eq_strict (hmap _ h))
  | fixed => exact congrArg (fun c => some (Conversion.map _ c)) (Policy.fixed_eq_strict (hmap _ h))
  | identifier | plus | minus | star | slash | leftParen | rightParen | assign | semicolon => rfl

theorem Convert.relax (h : Convert .strict ls) (policy : Policy) : Convert policy ls := fun l hl =>
  (l.leaf_eq_strict (h l hl) policy).symm ▸ h l hl

theorem Convert.leaves_eq (h : Convert .strict ls) (policy : Policy) : leaves policy ls = leaves .strict ls :=
  List.filterMap_congr fun l hl => congrArg (·.bind Conversion.value?) (l.leaf_eq_strict (h l hl) policy)

theorem Convert.mint_eq (h : Convert .strict ls) (policy : Policy) (a : Arena) :
    mint policy a ls = mint .strict a ls := by
  induction ls generalizing a with
  | nil => rfl
  | cons l ls ih =>
    have hleaf : l.leaf? policy = l.leaf? .strict :=
      congrArg (·.bind Conversion.value?) (l.leaf_eq_strict h.head policy)
    rw [mint, mint, hleaf]
    simp only [ih h.tail]

namespace Session

variable {s s' : Session} {source : String}

/-- A session that refuses neither a numeral nor the nesting comes to the same with other options that are no stricter,
and makes the same nodes. -/
theorem parse_of_le (hstrict : s.options.policy = .strict) (hle : s.options.maxNesting ≤ s'.options.maxNesting)
    (harena : s'.arena = s.arena) (hnumeral : ∀ offset text, (s.parse source).1 ≠ .error (.malformedNumber offset text))
    (hnesting : ∀ offset limit, (s.parse source).1 ≠ .error (.tooDeep offset limit)) :
    (s'.parse source).1 = (s.parse source).1 ∧ (s'.parse source).2.arena = (s.parse source).2.arena := by
  rcases scan_cases s.options.policy (scan source) with ⟨ls, e, es, failure, h, hls, hf⟩ | ⟨ls, h, hls⟩
  · obtain ⟨hfails, ha⟩ := failsWith_fault h hls hf
    rcases fault_cases h hf with ⟨offset, text, rfl, rfl⟩ | ⟨-, l, -, rfl⟩
    · rw [hstrict] at hls ha
      obtain ⟨hfails', ha'⟩ := failsWith_fault h (hls.relax s'.options.policy) rfl
      rw [hfails.result, hfails'.result, ha, ha', harena, hls.leaves_eq]
      exact ⟨rfl, rfl⟩
    · exact absurd hfails.result (hnumeral _ _)
  · cases hn : Nesting.start.firstTooDeep s.options.maxNesting (ls.map fun l => (l.kind, l.span)) with
    | some span => exact absurd (failsWith_tooDeep h hls hn).1.result (hnesting _ _)
    | none =>
      obtain ⟨hresult, ha⟩ := parse_of_scan h hls hn
      rw [hstrict] at hls hresult ha
      obtain ⟨hresult', ha'⟩ :=
        parse_of_scan h (hls.relax s'.options.policy) (Nesting.firstTooDeep_eq_none_of_le hle hn)
      rw [hls.leaves_eq, hls.mint_eq, harena] at hresult' ha'
      exact ⟨hresult'.trans hresult.symm, ha'.trans ha.symm⟩

/-- Only a strict session refuses a numeral. -/
theorem eq_strict_of_malformedNumber {offset : Nat} {text : String}
    (h : (s.parse source).1 = .error (.malformedNumber offset text)) : s.options.policy = .strict := by
  rcases s.result_cases source with
    ⟨ls, e, es, f, hscan, -, hf, hresult⟩ | ⟨ls, span, -, -, -, hresult⟩ | ⟨ls, -, -, -, reading, hresult⟩
  · rcases fault_cases hscan hf with ⟨_, _, -, rfl⟩ | ⟨hstrict, -⟩
    · cases hresult.symm.trans h
    · exact hstrict
  · cases hresult.symm.trans h
  · cases reading <;> cases hresult.symm.trans h

/-- What a session refuses for its nesting has no fault in its scan. -/
theorem exists_of_tooDeep {offset limit : Nat} (h : (s.parse source).1 = .error (.tooDeep offset limit)) :
    ∃ ls span, scan source = ls.map .ok ∧ Convert s.options.policy ls ∧
      Nesting.start.firstTooDeep s.options.maxNesting (ls.map fun l => (l.kind, l.span)) = some span ∧
      offset = span.start := by
  rcases s.result_cases source with
    ⟨ls, e, es, f, hscan, -, hf, hresult⟩ | ⟨ls, span, hscan, hls, hn, hresult⟩ | ⟨ls, -, -, -, reading, hresult⟩
  · rcases fault_cases hscan hf with ⟨_, _, -, rfl⟩ | ⟨-, l, -, rfl⟩ <;> cases hresult.symm.trans h
  · cases hresult.symm.trans h
    exact ⟨ls, span, hscan, hls, hn, rfl⟩
  · cases reading <;> cases hresult.symm.trans h

theorem pairwise_start_scan (h : scan source = ls.map .ok) :
    (ls.map Lexeme.span).Pairwise fun x y => x.start ≤ y.start := by
  have hcuts := Scan.cuts_scan source
  have hpairwise := hcuts.pairwise
  rw [h, List.pairwise_map] at hpairwise
  rw [List.pairwise_map]
  refine hpairwise.imp_of_mem fun {x _} hx _ hxy => Nat.le_trans ?_ hxy
  exact hcuts.start_le_stop (h ▸ List.mem_map_of_mem hx)

/-- Under a smaller limit a session with the same policy refuses the same token for its nesting, or one before it. -/
theorem tooDeep_of_le (hpolicy : s'.options.policy = s.options.policy)
    (hle : s'.options.maxNesting ≤ s.options.maxNesting) {offset limit : Nat}
    (h : (s.parse source).1 = .error (.tooDeep offset limit)) :
    ∃ offset' ≤ offset, (s'.parse source).1 = .error (.tooDeep offset' s'.options.maxNesting) := by
  obtain ⟨ls, span, hscan, hls, hn, rfl⟩ := exists_of_tooDeep h
  have hspans : ((ls.map fun l => (l.kind, l.span)).map Prod.snd).Pairwise fun x y => x.start ≤ y.start := by
    rw [List.map_map]
    exact pairwise_start_scan hscan
  obtain ⟨span', hn', horder⟩ := Nesting.exists_firstTooDeep_of_le hle hspans hn
  refine ⟨span'.start, ?_, (failsWith_tooDeep hscan (hpolicy ▸ hls) hn').1.result⟩
  rcases horder with rfl | horder
  · exact Nat.le_refl _
  · exact horder

/-- Relaxing the options changes nothing for a source that is not refused for a numeral or for its nesting. A permissive
session refuses no numeral, and if it refuses a source for its nesting, then every smaller limit refuses it at the same
token or at one before it. -/
theorem parse_relaxed (source : String) (limit : Nat) :
    let strict := (new ⟨.strict, limit⟩).parse source
    let permissive := (new ⟨.permissive, limit⟩).parse source
    ((∀ offset text, strict.1 ≠ .error (.malformedNumber offset text)) →
      (∀ offset limit', strict.1 ≠ .error (.tooDeep offset limit')) →
      ∀ policy limit', limit ≤ limit' →
        ((new ⟨policy, limit'⟩).parse source).1 = strict.1 ∧
        ((new ⟨policy, limit'⟩).parse source).2.arena = strict.2.arena ∧
        ((new ⟨policy, limit'⟩).parse source).2.phase = strict.2.phase ∧
        ((new ⟨policy, limit'⟩).parse source).2.root = strict.2.root) ∧
    (∀ offset text, permissive.1 ≠ .error (.malformedNumber offset text)) ∧
    ∀ offset limit', permissive.1 = .error (.tooDeep offset limit') → ∀ smaller ≤ limit,
      ∃ offset' ≤ offset, ((new ⟨.permissive, smaller⟩).parse source).1 = .error (.tooDeep offset' smaller) := by
  intro strict permissive
  refine ⟨fun hnumeral hnesting policy limit' hle => ?_, fun offset text h => ?_, fun offset limit' h smaller hle => ?_⟩
  · have hlimits : (new ⟨.strict, limit⟩).options.maxNesting ≤ (new ⟨policy, limit'⟩).options.maxNesting := hle
    obtain ⟨hresult, harena⟩ := parse_of_le rfl hlimits rfl hnumeral hnesting
    rw [phase_parse, phase_parse, root_parse, root_parse, hresult]
    exact ⟨rfl, harena, rfl, rfl⟩
  · cases eq_strict_of_malformedNumber h
  · have hpolicy : (new ⟨.permissive, smaller⟩).options.policy = (new ⟨.permissive, limit⟩).options.policy := rfl
    exact tooDeep_of_le hpolicy hle h

end Session

end Formula
