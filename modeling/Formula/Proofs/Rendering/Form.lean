import Formula.Proofs.Rendering.Label

/-!
# Forms

A form is a statement with the values of its leaves, wherever its nodes are. It is written as a nested form: a leaf as
its label, and anything else in parentheses, with its head in front of its parts. A text is that of one form only, even
with more text behind it (`Form.Legible.reads`), because the word behind a parenthesis is the head of one kind of form
and the parts are read one after the other. The same holds for programs (`programText_injective`).
-/

namespace Formula

theorem Operator.symbol_injective {o o' : Operator} (h : o.symbol = o'.symbol) : o = o' := by
  cases o <;> cases o' <;> first | rfl | exact absurd h (by decide)

theorem Operator.symbol_ne_assign (o : Operator) : o.symbol ≠ "=" := by
  cases o <;> decide

/-- A statement with the values of its leaves. -/
inductive Form
  | leaf (node : Node)
  | paren (inner : Form)
  | negation (operand : Form)
  | binary (operator : Operator) (left right : Form)
  | assignment (target value : Form)
deriving DecidableEq

/-- The text of something in parentheses: its head, and its parts behind a blank each. -/
def group (head : String) (parts : List (List Char)) : List Char :=
  '(' :: (head.toList ++ (parts.flatMap (' ' :: ·) ++ [')']))

theorem endsWord_parts (parts : List (List Char)) (s : List Char) :
    EndsWord (parts.flatMap (' ' :: ·) ++ ')' :: s) := by
  cases parts with
  | nil => exact endsWord_close s
  | cons part parts => exact endsWord_blank _

/-- The head of a text in parentheses is where its first word ends. -/
theorem group_append_inj {head head' : String} {parts parts' : List (List Char)} {r r' : List Char}
    (hhead : IsWord head.toList) (hhead' : IsWord head'.toList)
    (h : group head parts ++ r = group head' parts' ++ r') :
    head = head' ∧ parts.flatMap (' ' :: ·) ++ ')' :: r = parts'.flatMap (' ' :: ·) ++ ')' :: r' := by
  simp only [group, List.cons_append, List.append_assoc, List.cons.injEq, List.nil_append, true_and] at h
  obtain ⟨hh, hp⟩ := hhead.append_inj hhead' (endsWord_parts parts r) (endsWord_parts parts' r') h
  exact ⟨String.toList_inj.mp hh, hp⟩

namespace Form

/-- The word that a form begins with: the label of a leaf, or the head of anything else. -/
def head : Form → String
  | leaf node => node.label
  | paren _ => "paren"
  | negation _ => "neg"
  | binary operator _ _ => operator.symbol
  | assignment _ _ => "="

/-- What stands behind the head. -/
def parts : Form → List Form
  | leaf _ => []
  | paren f | negation f => [f]
  | binary _ f g | assignment f g => [f, g]

def isLeaf : Form → Bool
  | leaf _ => true
  | _ => false

/-- The leaves from left to right. -/
def leaves : Form → List Node
  | leaf node => [node]
  | paren f | negation f => f.leaves
  | binary _ f g | assignment f g => f.leaves ++ g.leaves

/-- The form written out. -/
def text : Form → List Char
  | leaf node => node.label.toList
  | paren f => group "paren" [f.text]
  | negation f => group "neg" [f.text]
  | binary operator f g => group operator.symbol [f.text, g.text]
  | assignment f g => group "=" [f.text, g.text]

/-- Every leaf is legible. -/
def Legible (f : Form) : Prop :=
  ∀ node ∈ f.leaves, node.IsLegible

variable {f g : Form} {r r' : List Char}

theorem exists_leaf (h : f.isLeaf = true) : ∃ node, f = leaf node := by
  cases f <;> first | exact ⟨_, rfl⟩ | cases h

theorem text_eq_group (h : f.isLeaf = false) : f.text = group f.head (f.parts.map text) := by
  cases f <;> first | rfl | cases h

theorem leaves_eq_flatMap (h : f.isLeaf = false) : f.leaves = f.parts.flatMap leaves := by
  cases f with
  | leaf _ => cases h
  | paren _ | negation _ | binary _ _ _ | assignment _ _ => simp [leaves, parts]

theorem Legible.of_mem_parts (h : f.Legible) (hleaf : f.isLeaf = false) (hg : g ∈ f.parts) : g.Legible :=
  fun node hnode => h node (leaves_eq_flatMap hleaf ▸ List.mem_flatMap.mpr ⟨g, hg, hnode⟩)

theorem isWord_head (h : f.isLeaf = false) : IsWord f.head.toList := by
  cases f with
  | leaf node => cases h
  | paren _ | negation _ | assignment _ _ => simp [IsWord, head]
  | binary operator _ _ => cases operator <;> simp [IsWord, head, Operator.symbol]

/-- What is in parentheses is known by its head and its parts. -/
theorem eq_of_head_eq_of_parts_eq (hf : f.isLeaf = false) (hg : g.isLeaf = false) (hhead : f.head = g.head)
    (hparts : f.parts = g.parts) : f = g := by
  cases f <;> cases g <;> simp_all [isLeaf, head, parts]
  case binary.binary => exact Operator.symbol_injective hhead
  case binary.assignment => exact absurd hhead (Operator.symbol_ne_assign _)
  case assignment.binary => exact absurd hhead.symm (Operator.symbol_ne_assign _)

/-! ## Reading a form off a text -/

/-- Where the form stands in front of a text, no other form does. -/
def Reads (f : Form) : Prop :=
  ∀ g r r', g.Legible → EndsWord r → EndsWord r' → f.text ++ r = g.text ++ r' → f = g ∧ r = r'

/-- The parts of a form are read one after the other, up to the closing parenthesis. -/
theorem parts_append_inj {fs gs : List Form} (hfs : ∀ f ∈ fs, f.Reads) (hgs : ∀ g ∈ gs, g.Legible)
    (h : (fs.map text).flatMap (' ' :: ·) ++ ')' :: r = (gs.map text).flatMap (' ' :: ·) ++ ')' :: r') :
    fs = gs ∧ r = r' := by
  induction fs generalizing gs with
  | nil =>
    cases gs with
    | nil => simpa using h
    | cons g gs => simp at h
  | cons f fs ih =>
    cases gs with
    | nil => simp at h
    | cons g gs =>
      rw [List.forall_mem_cons] at hfs hgs
      simp only [List.map_cons, List.flatMap_cons, List.cons_append, List.append_assoc, List.cons.injEq,
        true_and] at h
      obtain ⟨rfl, hrest⟩ := hfs.1 g _ _ hgs.1 (endsWord_parts _ r) (endsWord_parts _ r') h
      obtain ⟨rfl, hr⟩ := ih hfs.2 hgs.2 hrest
      exact ⟨rfl, hr⟩

/-- A leaf is told from what is in parentheses by its first character. -/
theorem leaf_text_ne_group {node : Node} (h : node.IsLegible) (head : String) (parts : List (List Char)) :
    (leaf node).text ++ r ≠ group head parts ++ r' := by
  intro heq
  obtain ⟨c, t, ht⟩ := List.exists_cons_of_ne_nil h.label_ne_nil
  have hc : c ∈ node.label.toList := ht ▸ List.mem_cons_self
  rw [text, ht, group, List.cons_append, List.cons_append, List.cons.injEq] at heq
  exact (h.isWord_label c hc).2.1 heq.1

theorem reads_leaf {node : Node} (h : node.IsLegible) : (leaf node).Reads := by
  intro g r r' hg hr hr' htext
  cases hleaf : g.isLeaf with
  | true =>
    obtain ⟨node', rfl⟩ := exists_leaf hleaf
    have h' : node'.IsLegible := hg node' (List.mem_singleton_self node')
    obtain ⟨hlabel, rfl⟩ := h.isWord_label.append_inj h'.isWord_label hr hr' htext
    rw [Node.label_injective h h' (String.toList_inj.mp hlabel)]
    exact ⟨rfl, rfl⟩
  | false =>
    rw [text_eq_group hleaf] at htext
    exact absurd htext (leaf_text_ne_group h _ _)

/-- What is in parentheses is read if its parts are. -/
theorem reads_of_parts (hf : f.isLeaf = false) (hparts : ∀ p ∈ f.parts, p.Reads) : f.Reads := by
  intro g r r' hg hr hr' htext
  rw [text_eq_group hf] at htext
  cases hleaf : g.isLeaf with
  | true =>
    obtain ⟨node', rfl⟩ := exists_leaf hleaf
    exact absurd htext.symm (leaf_text_ne_group (hg node' (List.mem_singleton_self node')) _ _)
  | false =>
    rw [text_eq_group hleaf] at htext
    obtain ⟨hhead, hrest⟩ := group_append_inj (isWord_head hf) (isWord_head hleaf) htext
    obtain ⟨hpartsEq, rfl⟩ := parts_append_inj hparts (fun p hp => hg.of_mem_parts hleaf hp) hrest
    exact ⟨eq_of_head_eq_of_parts_eq hf hleaf hhead hpartsEq, rfl⟩

/-- A legible form is read off the text that it stands in front of. -/
theorem Legible.reads (h : f.Legible) : f.Reads := by
  induction f with
  | leaf node => exact reads_leaf (h node (List.mem_singleton_self node))
  | paren f ih | negation f ih => exact reads_of_parts rfl (by simpa [parts] using ih h)
  | binary _ f g ihf ihg | assignment f g ihf ihg =>
    have hf : f.Reads := ihf fun node hnode => h node (List.mem_append_left _ hnode)
    have hg : g.Reads := ihg fun node hnode => h node (List.mem_append_right _ hnode)
    exact reads_of_parts rfl (by simpa [parts] using ⟨hf, hg⟩)

theorem head_ne_seq (h : f.isLeaf = false) : f.head ≠ "seq" := by
  cases f with
  | leaf _ => cases h
  | binary operator _ _ => cases operator <;> simp [head, Operator.symbol]
  | paren _ | negation _ | assignment _ _ => simp [head]

end Form

/-! ## Programs -/

/-- The text of a program: its statement if it has one, else all of them as a sequence. -/
def programText : List Form → List Char
  | [f] => f.text
  | fs => group "seq" (fs.map Form.text)

theorem isWord_seq : IsWord "seq".toList := by
  simp [IsWord]

/-- A single statement is no sequence. -/
theorem text_ne_seq {f : Form} (h : f.Legible) (parts : List (List Char)) : f.text ≠ group "seq" parts := by
  intro htext
  cases hleaf : f.isLeaf with
  | true =>
    obtain ⟨node, rfl⟩ := Form.exists_leaf hleaf
    exact Form.leaf_text_ne_group (h node (List.mem_singleton_self node)) _ _ (congrArg (· ++ []) htext)
  | false =>
    rw [Form.text_eq_group hleaf] at htext
    exact Form.head_ne_seq hleaf
      (group_append_inj (Form.isWord_head hleaf) isWord_seq (congrArg (· ++ []) htext)).1

theorem programText_cases (fs : List Form) :
    (∃ f, fs = [f]) ∨ programText fs = group "seq" (fs.map Form.text) := by
  unfold programText
  split
  · exact .inl ⟨_, rfl⟩
  · exact .inr rfl

/-- Legible programs with one text are one program. -/
theorem programText_injective {fs gs : List Form} (hfs : ∀ f ∈ fs, f.Legible) (hgs : ∀ g ∈ gs, g.Legible)
    (h : programText fs = programText gs) : fs = gs := by
  rcases programText_cases fs with ⟨f, rfl⟩ | hfsText <;> rcases programText_cases gs with ⟨g, rfl⟩ | hgsText
  · have hf : f.Legible := hfs f (List.mem_singleton_self f)
    have hg : g.Legible := hgs g (List.mem_singleton_self g)
    rw [(hf.reads g _ _ hg endsWord_nil endsWord_nil (congrArg (· ++ []) h)).1]
  · rw [hgsText] at h
    exact absurd h (text_ne_seq (hfs f (List.mem_singleton_self f)) _)
  · rw [hfsText] at h
    exact absurd h.symm (text_ne_seq (hgs g (List.mem_singleton_self g)) _)
  · rw [hfsText, hgsText] at h
    have hparts := (group_append_inj isWord_seq isWord_seq (congrArg (· ++ []) h)).2
    exact (Form.parts_append_inj (fun f hf => (hfs f hf).reads) hgs hparts).1

end Formula
