import Mathlib.Computability.StateTransition
import Formula.Proofs.Arena.Descent

/-!
# Walks turn by turn

The loops of the two walks, as steps from state to state: what is on top of the stack is taken off and looked up in the
whole arena, and what comes of it is pushed (`reaches_leafTurn`, `reaches_formTurn`). In an arena that descends the
turns end, with the leaves and the rendering of the id that they start with (`Descends.eval_leafTurn`,
`Descends.eval_formTurn`), and this is so for the arenas of every family whose nodes refer only to ids that were handed
out before (`Family.walks_createAll`).
-/

namespace Formula

namespace Arena

open StateTransition

variable {a : Arena}

/-! ## Leaves -/

/-- One turn of the loop that collects leaves. The state is what was found so far, and the stack. -/
def leafTurn (a : Arena) : List NodeId × List NodeId → Option (List NodeId × List NodeId)
  | (_, []) => none
  | (found, id :: rest) =>
    match a.node? id with
    | none => some (found, rest)
    | some node =>
      if node.isLeaf then some (found ++ [id], rest)
      -- pushed from the last on
      else some (found, node.children.foldr List.cons rest)

/-- The loop goes through these turns. -/
theorem reaches_leafTurn {found found' : Array NodeId} {stack : List NodeId}
    (h : a.collectLeaves? found stack = some found') :
    Reaches a.leafTurn (found.toList, stack) (found'.toList, []) := by
  refine collectLeaves?.partial_correctness a
    (fun found stack found' => Reaches a.leafTurn (found.toList, stack) (found'.toList, [])) ?_ found stack found' h
  intro loop ih found stack found' h
  cases stack with
  | nil =>
    cases h
    exact .refl
  | cons id rest =>
    cases hn : a.node? id with
    | none =>
      simp only [leafBody, hn] at h
      exact .head (by simp [leafTurn, hn]) (ih _ _ _ h)
    | some node =>
      cases hleaf : node.isLeaf with
      | true =>
        simp only [leafBody, hn, hleaf, if_true] at h
        exact .head (by simp [leafTurn, hn, hleaf]) (ih _ _ _ h)
      | false =>
        simp only [leafBody, hn, hleaf, Bool.false_eq_true, if_false] at h
        exact .head (by simp [leafTurn, hn, hleaf]) (ih _ _ _ h)

/-- The turns end with the leaves of the id that they start with. -/
theorem Descends.eval_leafTurn (h : a.Descends) (id : NodeId) :
    eval a.leafTurn ([], [id]) = Part.some (a.leaves id, []) := by
  obtain ⟨found, hfound, hleaves⟩ := Option.map_eq_some_iff.mp (h.walks_end id).1
  rw [← hleaves]
  exact Part.eq_some_iff.mpr (mem_eval.mpr ⟨reaches_leafTurn hfound, rfl⟩)

/-! ## Forms -/

/-- One turn of the loop that writes forms. The state is what was written so far, and the stack. -/
def formTurn (a : Arena) : String × List Pending → Option (String × List Pending)
  | (_, []) => none
  | (text, .head head :: rest) => some (text ++ "(" ++ head, rest)
  | (text, .space :: rest) => some (text ++ " ", rest)
  | (text, .close :: rest) => some (text ++ ")", rest)
  | (text, .visit id :: rest) =>
    match a.node? id with
    | none => some (text ++ dangling, rest)
    | some node =>
      if node.isLeaf then some (text ++ node.label, rest)
      -- pushed from the closing parenthesis on
      else some (text, .head node.label ::
        node.children.foldr (fun child stack => .space :: .visit child :: stack) (.close :: rest))

/-- The loop goes through these turns. -/
theorem reaches_formTurn {written written' : String} {stack : List Pending}
    (h : a.writeForm? written stack = some written') : Reaches a.formTurn (written, stack) (written', []) := by
  refine writeForm?.partial_correctness a
    (fun written stack written' => Reaches a.formTurn (written, stack) (written', [])) ?_ written stack written' h
  intro loop ih written stack written' h
  match stack with
  | [] =>
    cases h
    exact .refl
  | .head text :: rest => exact .head rfl (ih _ _ _ h)
  | .space :: rest => exact .head rfl (ih _ _ _ h)
  | .close :: rest => exact .head rfl (ih _ _ _ h)
  | .visit id :: rest =>
    cases hn : a.node? id with
    | none =>
      simp only [formBody, hn] at h
      exact .head (by simp [formTurn, hn]) (ih _ _ _ h)
    | some node =>
      cases hleaf : node.isLeaf with
      | true =>
        simp only [formBody, hn, hleaf, if_true] at h
        exact .head (by simp [formTurn, hn, hleaf]) (ih _ _ _ h)
      | false =>
        simp only [formBody, hn, hleaf, Bool.false_eq_true, if_false] at h
        exact .head (by simp [formTurn, hn, hleaf, Pending.ofNode]) (ih _ _ _ h)

/-- The turns end with the rendering of the id that they start with. -/
theorem Descends.eval_formTurn (h : a.Descends) (id : NodeId) :
    eval a.formTurn ("", [.visit id]) = Part.some (a.render id, []) :=
  Part.eq_some_iff.mpr (mem_eval.mpr ⟨reaches_formTurn (h.walks_end id).2, rfl⟩)

end Arena

namespace Family

open Arena

variable {n : Nat}

/-- However nodes are made in the arenas of a family, if they refer only to ids that were handed out before, both walks
end from every id in every arena, and give what the recursions give, which have no other solution. An id of another
arena has no leaves and dangles. -/
theorem walks_createAll {cs : List (Creation n)} (h : RefersBack ((ofSize n).createAll cs).1) (p : Fin n) :
    let a := ((ofSize n).createAll cs).2.arena p
    (∀ g, a.LeafRecursion g ↔ g = a.leaves) ∧ (∀ g, a.FormRecursion g ↔ g = a.render) ∧
    ∀ id, StateTransition.eval a.leafTurn ([], [id]) = Part.some (a.leaves id, []) ∧
      StateTransition.eval a.formTurn ("", [.visit id]) = Part.some (a.render id, []) ∧
      (id.arena ≠ p → a.leaves id = [] ∧ a.render id = "<dangling>") ∧
      (a.node? id = some (.sequence []) → a.leaves id = [] ∧ a.render id = "(seq)") := by
  intro a
  have hdescends : a.Descends := (records_createAll cs).descends h p
  refine ⟨fun g => hdescends.leafRecursion_iff, fun g => hdescends.formRecursion_iff, fun id =>
    ⟨hdescends.eval_leafTurn id, hdescends.eval_formTurn id, fun hid => ?other, fun hn => ?empty⟩⟩
  case other =>
    have hnone : a.node? id = none := node?_eq_none_of_ne (by rwa [id_arena])
    exact ⟨leaves_of_none hnone, render_of_none hnone⟩
  case empty =>
    have hc : ∀ child ∈ (Node.sequence []).children, a.Founded child := List.forall_mem_nil _
    rw [leaves_of_some hn hc, render_of_some hn hc]
    simp [Node.isLeaf, Node.label, Node.children]

/-- A sum used twice, between them the empty sequence of another arena. -/
theorem walks_createAll_shared :
    let cs : List (Creation 2) := [⟨0, .identifier, "a"⟩, ⟨0, .binary, (.add, ⟨0, 0⟩, ⟨0, 0⟩)⟩, ⟨1, .sequence, []⟩,
      ⟨0, .sequence, [⟨0, 1⟩, ⟨1, 0⟩, ⟨0, 1⟩]⟩]
    let f := ((ofSize 2).createAll cs).2
    RefersBack ((ofSize 2).createAll cs).1 ∧
      StateTransition.eval (f.arena 0).leafTurn ([], [⟨0, 2⟩]) =
        Part.some ([⟨0, 0⟩, ⟨0, 0⟩, ⟨0, 0⟩, ⟨0, 0⟩], []) ∧
      StateTransition.eval (f.arena 0).formTurn ("", [.visit ⟨0, 2⟩]) =
        Part.some ("(seq (+ a a) <dangling> (+ a a))", []) ∧
      (f.arena 1).render ⟨1, 0⟩ = "(seq)" := by
  intro cs f
  have hback : RefersBack ((ofSize 2).createAll cs).1 := by
    unfold RefersBack
    decide
  obtain ⟨hleaf, hform, hwalk⟩ := walks_createAll hback 0
  obtain ⟨-, -, hwalk'⟩ := walks_createAll hback 1
  obtain ⟨hfound, hwritten, -, -⟩ := hwalk ⟨0, 2⟩
  have hname : (f.arena 0).node? ⟨0, 0⟩ = some (.identifier "a") := by decide
  have hsum : (f.arena 0).node? ⟨0, 1⟩ = some (.binary .add ⟨0, 0⟩ ⟨0, 0⟩) := by decide
  have hother : (f.arena 0).node? ⟨1, 0⟩ = none := by decide
  have hall : (f.arena 0).node? ⟨0, 2⟩ = some (.sequence [⟨0, 1⟩, ⟨1, 0⟩, ⟨0, 1⟩]) := by decide
  have hleaves : (f.arena 0).leaves ⟨0, 2⟩ = [⟨0, 0⟩, ⟨0, 0⟩, ⟨0, 0⟩, ⟨0, 0⟩] := by
    have hrec : (f.arena 0).LeafRecursion (f.arena 0).leaves := (hleaf _).mpr rfl
    simp [hrec ⟨0, 2⟩, hrec ⟨0, 1⟩, hrec ⟨0, 0⟩, hrec ⟨1, 0⟩, hname, hsum, hother, hall, Node.isLeaf, Node.children]
  have hrender : (f.arena 0).render ⟨0, 2⟩ = "(seq (+ a a) <dangling> (+ a a))" := by
    have hrec : (f.arena 0).FormRecursion (f.arena 0).render := (hform _).mpr rfl
    simp only [hrec ⟨0, 2⟩, hrec ⟨0, 1⟩, hrec ⟨0, 0⟩, hrec ⟨1, 0⟩, hname, hsum, hother, hall, Node.isLeaf,
      Node.children, Node.label, Operator.symbol, dangling, List.map]
    decide
  exact ⟨hback, hleaves ▸ hfound, hrender ▸ hwritten, ((hwalk' ⟨1, 0⟩).2.2.2 (by decide)).2⟩

end Family

end Formula
