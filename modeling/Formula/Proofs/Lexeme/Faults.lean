import Mathlib.Data.List.Basic
import Formula.Lexeme.Scan
import Formula.Proofs.Arena.Extension
import Formula.Supply

/-!
# The first fault of a scan

An entry of a scan is at fault if it is a stray character, or a numeral that the policy does not convert. Either the
scan has a first fault, with nothing but lexemes before it that convert, or it has none (`scan_cases`). The lexemes
before a fault are handed out as tokens, each of a valued kind with a leaf of its own (`mint`).
-/

namespace Formula

/-- The leaf that a lexeme is converted to. -/
def Lexeme.leaf? (policy : Policy) (l : Lexeme) : Option Node :=
  (l.leaf policy).bind Conversion.value?

/-- The failure that taking an entry of a scan comes to. -/
def fault? (policy : Policy) : Except Failure Lexeme → Option Failure
  | .error f => some f
  | .ok l => if l.leaf policy = some .refused then some (.malformedNumber l.span.start l.text) else none

/-- The lexemes are converted, as far as they are numerals. -/
def Convert (policy : Policy) (ls : List Lexeme) : Prop :=
  ∀ l ∈ ls, l.leaf policy ≠ some .refused

/-- The lexemes before the first fault. -/
def accepted (policy : Policy) : List (Except Failure Lexeme) → List Lexeme
  | .ok l :: rest => if l.leaf policy = some .refused then [] else l :: accepted policy rest
  | _ => []

/-- The leaves of lexemes in order. -/
def leaves (policy : Policy) (ls : List Lexeme) : List Node :=
  ls.filterMap (Lexeme.leaf? policy)

/-- The tokens of lexemes with their spans; their leaves are made behind the nodes that are there. -/
def mint (policy : Policy) : Arena → List Lexeme → List (Token × Span)
  | _, [] => []
  | a, l :: ls =>
    match l.leaf? policy with
    | none => (⟨l.kind, none⟩, l.span) :: mint policy a ls
    | some node => (⟨l.kind, some a.nextId⟩, l.span) :: mint policy (a.push node) ls

section

variable {policy : Policy} {l : Lexeme} {ls : List Lexeme} {e : Except Failure Lexeme} {f : Failure} {a : Arena}

theorem fault?_ok_eq_some :
    fault? policy (.ok l) = some f ↔ l.leaf policy = some .refused ∧ .malformedNumber l.span.start l.text = f := by
  by_cases h : l.leaf policy = some .refused <;> simp [fault?, h]

/-- Only numerals are refused, and only by a strict policy. -/
theorem eq_strict_of_leaf_eq_refused (h : l.leaf policy = some .refused) : policy = .strict := by
  cases policy with
  | strict => rfl
  | permissive =>
    obtain ⟨kind, text, span⟩ := l
    cases kind with
    | integer =>
      simp only [Lexeme.leaf, Policy.integer, Policy.settle] at h
      split at h <;> simp_all [Conversion.map]
    | fixed =>
      simp only [Lexeme.leaf, Policy.fixed, Policy.settle] at h
      split at h <;> simp_all [Conversion.map]
    | identifier | plus | minus | star | slash | leftParen | rightParen | assign | semicolon =>
      simp [Lexeme.leaf] at h

theorem convert_permissive (ls : List Lexeme) : Convert .permissive ls := fun l _ hl => by
  cases eq_strict_of_leaf_eq_refused hl

/-- A lexeme that converts has a leaf if it is of a valued kind. -/
theorem isSome_leaf? (h : l.leaf policy ≠ some .refused) : (l.leaf? policy).isSome = l.kind.isValued := by
  rw [← Lexeme.isSome_leaf policy l, Lexeme.leaf?]
  cases hl : l.leaf policy with
  | none => rfl
  | some conversion =>
    cases conversion with
    | whole _ | leading _ => rfl
    | refused => exact absurd hl h

theorem Lexeme.isLeaf_of_leaf? {node : Node} (h : l.leaf? policy = some node) : node.isLeaf = true := by
  obtain ⟨kind, text, span⟩ := l
  cases kind with
  | identifier =>
    cases h
    rfl
  | integer | fixed =>
    simp only [leaf?, leaf, Option.bind_some, Conversion.value?_map] at h
    obtain ⟨value, -, rfl⟩ := Option.map_eq_some_iff.mp h
    rfl
  | plus | minus | star | slash | leftParen | rightParen | assign | semicolon => cases h

theorem isLeaf_of_mem_leaves {node : Node} (h : node ∈ leaves policy ls) : node.isLeaf = true := by
  obtain ⟨l, -, hl⟩ := List.mem_filterMap.mp h
  exact l.isLeaf_of_leaf? hl

theorem Convert.head (h : Convert policy (l :: ls)) : l.leaf policy ≠ some .refused :=
  h l List.mem_cons_self

theorem Convert.tail (h : Convert policy (l :: ls)) : Convert policy ls :=
  fun l' hl => h l' (List.mem_cons_of_mem l hl)

theorem leaves_cons (policy : Policy) (l : Lexeme) (ls : List Lexeme) :
    leaves policy (l :: ls) = leaves policy [l] ++ leaves policy ls := by
  rw [leaves, leaves, leaves, ← List.filterMap_append]
  rfl

/-- There is one leaf for every lexeme of a valued kind. -/
theorem length_leaves (h : Convert policy ls) : (leaves policy ls).length = ls.countP fun l => l.kind.isValued := by
  induction ls with
  | nil => rfl
  | cons l ls ih =>
    have hsome := isSome_leaf? h.head
    rw [List.countP_cons, ← ih h.tail, leaves, List.filterMap_cons, ← leaves]
    cases hl : l.leaf? policy with
    | none =>
      rw [hl] at hsome
      simp [← hsome]
    | some node =>
      rw [hl] at hsome
      simp [← hsome]

theorem map_kind_mint (policy : Policy) (a : Arena) (ls : List Lexeme) :
    (mint policy a ls).map (fun (t, span) => (t.kind, span)) = ls.map fun l => (l.kind, l.span) := by
  induction ls generalizing a with
  | nil => rfl
  | cons l ls ih =>
    rw [mint]
    split <;> simp [ih]

theorem map_snd_mint (policy : Policy) (a : Arena) (ls : List Lexeme) :
    (mint policy a ls).map Prod.snd = ls.map Lexeme.span := by
  have h := congrArg (List.map Prod.snd) (map_kind_mint policy a ls)
  rw [List.map_map, List.map_map] at h
  exact h

theorem accepted_append (h : Convert policy ls) (entries : List (Except Failure Lexeme)) :
    accepted policy (ls.map .ok ++ entries) = ls ++ accepted policy entries := by
  induction ls with
  | nil => rfl
  | cons l ls ih => rw [List.map_cons, List.cons_append, accepted, if_neg h.head, ih h.tail, List.cons_append]

theorem accepted_map_ok (h : Convert policy ls) : accepted policy (ls.map .ok) = ls := by
  have happend := accepted_append h []
  rw [List.append_nil] at happend
  exact happend.trans (List.append_nil ls)

theorem accepted_of_fault {es : List (Except Failure Lexeme)} (h : fault? policy e = some f) :
    accepted policy (e :: es) = [] := by
  cases e with
  | error _ => rfl
  | ok l => rw [accepted, if_pos (fault?_ok_eq_some.mp h).1]

/-- A scan is at fault at some first place, or nowhere. -/
theorem scan_cases (policy : Policy) (entries : List (Except Failure Lexeme)) :
    (∃ ls e rest f, entries = ls.map .ok ++ e :: rest ∧ Convert policy ls ∧ fault? policy e = some f) ∨
      ∃ ls, entries = ls.map .ok ∧ Convert policy ls := by
  induction entries with
  | nil => exact .inr ⟨[], rfl, fun _ hl => absurd hl List.not_mem_nil⟩
  | cons e rest ih =>
    cases hf : fault? policy e with
    | some f => exact .inl ⟨[], e, rest, f, rfl, fun _ hl => absurd hl List.not_mem_nil, hf⟩
    | none =>
      obtain ⟨l, rfl⟩ : ∃ l, e = .ok l := by
        cases e with
        | ok l => exact ⟨l, rfl⟩
        | error f => cases hf
      have hl : l.leaf policy ≠ some .refused := by
        intro hr
        rw [fault?, if_pos hr] at hf
        cases hf
      have hcons : ∀ ls, Convert policy ls → Convert policy (l :: ls) := fun ls hls l' hl' => by
        rcases List.mem_cons.mp hl' with rfl | hl'
        · exact hl
        · exact hls l' hl'
      rcases ih with ⟨ls, e', rest', f, rfl, hls, hf'⟩ | ⟨ls, rfl, hls⟩
      · exact .inl ⟨l :: ls, e', rest', f, rfl, hcons ls hls, hf'⟩
      · exact .inr ⟨l :: ls, rfl, hcons ls hls⟩

/-- What a scan fails with is a stray character. -/
theorem exists_unrecognized_of_mem_scan {source : String} (h : .error f ∈ scan source) :
    ∃ offset text, f = .unrecognized offset text := by
  unfold scan at h
  generalize Scan.pieces source.toList = pieces, 0 = offset at h
  induction pieces generalizing offset with
  | nil => simp [Scan.entriesInto] at h
  | cons piece pieces ih =>
    rw [Scan.entriesInto_cons] at h
    rcases List.mem_append.mp h with h | h
    · unfold Scan.entry at h
      split at h
      · cases h
      · simp at h
      · refine ⟨offset, piece.string, ?_⟩
        simpa using h
    · exact ih _ h

end

end Formula
