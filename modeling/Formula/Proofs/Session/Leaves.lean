import Formula.Proofs.Grammar.Yield
import Formula.Proofs.Session.Outcome

/-!
# The leaves of a parse

A lexeme of a valued kind is made a leaf when it is handed out, and its token carries the id of that leaf. These ids
follow each other (`filterMap_leaf?_mint`), and they are the leaves below the root that a parse gives, in the order of
the source (`leaves_parse`).
-/

namespace Formula

open Grammar

/-- The node is what the policy makes of the lexeme: an identifier is taken as it is written, and a numeral is
converted. -/
inductive Lexeme.IsValue (policy : Policy) (l : Lexeme) : Node → Prop
  | identifier : l.kind = .identifier → IsValue policy l (.identifier l.text)
  | integer {value : Int64} : l.kind = .integer → (policy.integer l.text).value? = some value →
      IsValue policy l (.integer value)
  | fixed {value : Binary64} : l.kind = .fixed → (policy.fixed l.text).value? = some value →
      IsValue policy l (.fixed value)

namespace Lexeme.IsValue

variable {policy : Policy} {l : Lexeme} {node : Node}

theorem of_leaf? (h : l.leaf? policy = some node) : l.IsValue policy node := by
  rw [leaf?, leaf] at h
  cases hk : l.kind with
  | identifier =>
    rw [hk] at h
    cases h
    exact .identifier hk
  | integer =>
    simp only [hk, Option.bind_some, Conversion.value?_map] at h
    obtain ⟨value, hvalue, rfl⟩ := Option.map_eq_some_iff.mp h
    exact .integer hk hvalue
  | fixed =>
    simp only [hk, Option.bind_some, Conversion.value?_map] at h
    obtain ⟨value, hvalue, rfl⟩ := Option.map_eq_some_iff.mp h
    exact .fixed hk hvalue
  | plus | minus | star | slash | leftParen | rightParen | assign | semicolon =>
    rw [hk] at h
    cases h

theorem isLeaf (h : l.IsValue policy node) : node.isLeaf = true := by
  cases h <;> rfl

end Lexeme.IsValue

section

variable {policy : Policy} {ls : List Lexeme} {a : Arena}

/-- The leaves of lexemes are what the policy makes of those of valued kinds. -/
theorem forall₂_isValue_leaves (h : Convert policy ls) :
    List.Forall₂ (Lexeme.IsValue policy) (ls.filter fun l => l.kind.isValued) (leaves policy ls) := by
  induction ls with
  | nil => exact .nil
  | cons l ls ih =>
    have hsome := isSome_leaf? h.head
    rw [leaves, List.filter_cons, List.filterMap_cons, ← leaves, ← hsome]
    cases hl : l.leaf? policy with
    | none => exact ih h.tail
    | some node => exact .cons (.of_leaf? hl) (ih h.tail)

/-- The tokens of lexemes carry the ids of their leaves. -/
theorem filterMap_leaf?_mint (h : Convert policy ls) :
    ((mint policy a ls).map Prod.fst).filterMap leaf? = a.nextIds (leaves policy ls).length := by
  -- The arena has one more node for each leaf, so that the ids of the others start behind it.
  induction ls generalizing a with
  | nil => rfl
  | cons l ls ih =>
    have hsome := isSome_leaf? h.head
    rw [mint, leaves, List.filterMap_cons, ← leaves]
    cases hl : l.leaf? policy with
    | none =>
      rw [hl] at hsome
      have hnone : leaf? ⟨l.kind, none⟩ = none := leaf?_eq_none hsome.symm
      simp only [List.map_cons, List.filterMap_cons, hnone]
      exact ih h.tail
    | some node =>
      rw [hl] at hsome
      have hid : leaf? ⟨l.kind, some a.nextId⟩ = some a.nextId := if_pos hsome.symm
      simp only [List.map_cons, List.filterMap_cons, hid, List.length_cons]
      rw [a.nextIds_succ node, ih h.tail]

/-- The leaves of a program that lexemes come to are those that are made for the lexemes. -/
theorem leaves_of_derives_mint {ss : List Statement} (hls : Convert policy ls)
    (hss : DerivesProgram ((mint policy a ls).map Prod.fst) ss) :
    ss.flatMap Statement.leaves = a.nextIds (leaves policy ls).length ∧
      ∀ id ∈ ss.flatMap Statement.leaves, (a.append (leaves policy ls)).IsLeaf id := by
  have hids := hss.leaves_eq.trans (filterMap_leaf?_mint hls)
  exact ⟨hids, hids ▸ Arena.isLeaf_of_mem_nextIds fun _ => isLeaf_of_mem_leaves⟩

end

namespace Session

variable {s : Session} {source : String} {root : NodeId}

/-- A parse that gives a root has read a program from a scan without a fault. -/
theorem exists_derives_of_parse (h : (s.parse source).1 = .ok root) :
    ∃ ls ss, scan source = ls.map .ok ∧ Convert s.options.policy ls ∧
      DerivesProgram ((mint s.options.policy s.arena ls).map Prod.fst) ss ∧
      root = (buildProgram ss (s.arena.append (leaves s.options.policy ls))).1 ∧
      (s.parse source).2.arena = (buildProgram ss (s.arena.append (leaves s.options.policy ls))).2 := by
  obtain ⟨ls, hscan, hls, hn⟩ := exists_scan_of_parse fun f hf => by
    rw [h] at hf
    cases hf
  by_cases hss : ∃ ss, DerivesProgram ((mint s.options.policy s.arena ls).map Prod.fst) ss
  · obtain ⟨ss, hss⟩ := hss
    obtain ⟨hroot, harena⟩ := parse_of_derives hscan hls hn hss
    exact ⟨ls, ss, hscan, hls, hss, Except.ok.inj (h.symm.trans hroot), harena⟩
  · obtain ⟨offset, expected, hfails, -⟩ := failsWith_unexpected hscan hls hn (not_exists.mp hss)
    rw [hfails.result] at h
    cases h

/-- Whatever a session did before, the leaves below the root that a parse gives are the ids it handed out for the
lexemes of valued kinds, in the order of the source and each once, and they mean what the policy makes of these. -/
theorem leaves_parse (h : (s.parse source).1 = .ok root) :
    ∃ ls : List Lexeme, scan source = ls.map .ok ∧
      (s.parse source).2.arena.leaves root = s.arena.nextIds (ls.countP fun l => l.kind.isValued) ∧
      ((s.parse source).2.arena.leaves root).Nodup ∧
      List.Forall₂
        (fun l id => ∃ node, (s.parse source).2.arena.node? id = some node ∧ l.IsValue s.options.policy node)
        (ls.filter fun l => l.kind.isValued) ((s.parse source).2.arena.leaves root) := by
  obtain ⟨ls, ss, hscan, hls, hss, rfl, harena⟩ := exists_derives_of_parse h
  -- from the lexemes through the tokens and the program to what is built of it
  obtain ⟨hids, hbuilt⟩ := leaves_of_derives_mint hls hss
  have hext := extends_buildProgram ss (s.arena.append (leaves s.options.policy ls))
  have hvalues := Arena.forall₂_nextIds hext (forall₂_isValue_leaves hls)
  rw [harena, leaves_buildProgram hbuilt, hids]
  exact ⟨ls, hscan, congrArg s.arena.nextIds (length_leaves hls), s.arena.nodup_nextIds _, hvalues⟩

/-- A second parse has the leaves of its own source, behind the node that the first one made. -/
theorem leaves_parse_second :
    (((new {}).parse "x").2.parse "a = (b - 1.5); 2").1 = .ok ⟨0, 8⟩ ∧
      (((new {}).parse "x").2.parse "a = (b - 1.5); 2").2.arena.leaves ⟨0, 8⟩ = [⟨0, 1⟩, ⟨0, 2⟩, ⟨0, 3⟩, ⟨0, 4⟩] := by
  have h : (((new {}).parse "x").2.parse "a = (b - 1.5); 2").1 = .ok ⟨0, 8⟩ := by decide +kernel
  have hvalued : ((scan "a = (b - 1.5); 2").filterMap Except.toOption).countP (fun l => l.kind.isValued) = 4 := by
    decide +kernel
  have hnext : ((new {}).parse "x").2.arena.nextIds 4 = [⟨0, 1⟩, ⟨0, 2⟩, ⟨0, 3⟩, ⟨0, 4⟩] := by decide +kernel
  obtain ⟨ls, hscan, hids, -, -⟩ := leaves_parse h
  have hls : (scan "a = (b - 1.5); 2").filterMap Except.toOption = ls := by
    rw [hscan, List.filterMap_map]
    exact List.filterMap_some
  rw [hls] at hvalued
  rw [hvalued, hnext] at hids
  exact ⟨h, hids⟩

end Session

end Formula
