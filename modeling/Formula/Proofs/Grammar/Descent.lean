import Formula.Proofs.Arena.Descent
import Formula.Grammar.Program

/-!
# The grammar refers back

A rule may bind ids that it was given, those that the tokens come with, and those of nodes that it has made. None of
them is one that the arena has yet to hand out if the first two are not. So reading tokens keeps an arena descending,
whatever the tokens are and however the reading ends (`descends_read`).
-/

namespace Formula.Grammar

open Rule hiding pure bind

/-- The arena descends, and the tokens do not come with ids that it has yet to hand out. -/
structure Safe (tokens : Array Token) (a : Arena) : Prop where
  descends : a.Descends
  payload {t : Token} {id : NodeId} : t ∈ tokens → t.payload = some id → a.IsOld id

section

variable {α β : Type} (tokens : Array Token)

/-- Given old ids, the rule keeps the arena descending and gives a value with old ids in it, if any. -/
def RefersBack (given : List NodeId) (ids : α → List NodeId) (r : Rule α) : Prop :=
  ∀ i run, Safe tokens run.arena → (∀ id ∈ given, run.arena.IsOld id) →
    run.arena.Extends (r tokens i run).2.arena ∧ (r tokens i run).2.arena.Descends ∧
      ∀ x j, (r tokens i run).1 = .matched x j → ∀ id ∈ ids x, (r tokens i run).2.arena.IsOld id

variable {tokens} {r r' : Rule α} {given : List NodeId} {ids : α → List NodeId} {ids' : β → List NodeId}

theorem Safe.of_extends {a b : Arena} (h : Safe tokens a) (hb : a.Extends b) (hd : b.Descends) : Safe tokens b :=
  ⟨hd, fun ht hp => (h.payload ht hp).of_extends hb⟩

/-! ## One law for each operator -/

/-- A rule that leaves the arena as it is has only to give old ids. -/
theorem refersBack_of_arena_eq (harena : ∀ i run, (r tokens i run).2.arena = run.arena)
    (h : ∀ i (run : Run), Safe tokens run.arena → (∀ id ∈ given, run.arena.IsOld id) →
      ∀ x j, (r tokens i run).1 = .matched x j → ∀ id ∈ ids x, run.arena.IsOld id) :
    RefersBack tokens given ids r := by
  intro i run hs hgiven
  rw [harena]
  exact ⟨run.arena.extends_refl, hs.descends, h i run hs hgiven⟩

theorem refersBack_pure {a : α} (h : ids a ⊆ given) : RefersBack tokens given ids (pure a : Rule α) := by
  refine refersBack_of_arena_eq (fun _ _ => rfl) fun i run _ hgiven x j hx id hid => ?_
  cases hx
  exact hgiven id (h hid)

theorem refersBack_exhausted : RefersBack tokens given ids (Rule.exhausted : Rule α) :=
  refersBack_of_arena_eq (fun _ _ => rfl) fun _ _ _ _ _ _ => nofun

theorem refersBack_symbol (c : Class) : RefersBack tokens given (fun _ => []) (symbol c) := by
  refine refersBack_of_arena_eq (fun i run => ?_) fun _ _ _ _ _ _ _ => List.forall_mem_nil _
  rw [symbol, token]
  split <;> rfl

theorem refersBack_atEnd : RefersBack tokens given (fun _ => []) atEnd := by
  refine refersBack_of_arena_eq (fun i run => ?_) fun _ _ _ _ _ _ _ => List.forall_mem_nil _
  rw [atEnd]
  split <;> rfl

/-- A leaf is the one that its token came with. -/
theorem refersBack_leaf (c : Class) : RefersBack tokens given (fun id => [id]) (leaf c) := by
  refine refersBack_of_arena_eq (fun i run => ?_) fun i run hs _ x j hx => List.forall_mem_singleton.mpr ?_
  · rw [leaf, token]
    split <;> rfl
  · rw [leaf, token] at hx
    split at hx
    · rename_i id hid
      cases hx
      obtain ⟨t, ht, hvalue⟩ := Option.bind_eq_some_iff.mp hid
      split at hvalue
      · exact hs.payload (Array.mem_of_getElem? ht) hvalue
      · cases hvalue
    · cases hx

theorem refersBack_create {node : Node} (h : node.children ⊆ given) :
    RefersBack tokens given (fun id => [id]) (create node) := by
  intro i run hs hgiven
  refine ⟨run.arena.extends_push node, hs.descends.push fun child hc => hgiven child (h hc), fun x j hx => ?_⟩
  cases hx
  exact List.forall_mem_singleton.mpr (run.arena.isOld_push_nextId node)

theorem RefersBack.bind {f : α → Rule β} (h : RefersBack tokens given ids r)
    (hf : ∀ x, RefersBack tokens (ids x ++ given) ids' (f x)) : RefersBack tokens given ids' (r >>= f) := by
  intro i run hs hgiven
  obtain ⟨hext, hd, hx⟩ := h i run hs hgiven
  rcases hr : r tokens i run with ⟨⟨x, j⟩ | _ | _, run'⟩ <;> rw [hr] at hext hd hx
  · have hgiven' : ∀ id ∈ ids x ++ given, run'.arena.IsOld id :=
      List.forall_mem_append.mpr ⟨hx x j rfl, fun id hid => (hgiven id hid).of_extends hext⟩
    obtain ⟨hext', hd', hy⟩ := hf x j run' (hs.of_extends hext hd) hgiven'
    rw [bind_matched f hr]
    exact ⟨hext.trans hext', hd', hy⟩
  · rw [bind_failed f hr]
    exact ⟨hext, hd, fun _ _ => nofun⟩
  · rw [bind_exhausted f hr]
    exact ⟨hext, hd, fun _ _ => nofun⟩

theorem RefersBack.orElse (h : RefersBack tokens given ids r) (h' : RefersBack tokens given ids r') :
    RefersBack tokens given ids (r <|> r') := by
  intro i run hs hgiven
  obtain ⟨hext, hd, hx⟩ := h i run hs hgiven
  rcases hr : r tokens i run with ⟨⟨x, j⟩ | _ | _, run'⟩ <;> rw [hr] at hext hd hx
  · rw [orElse_matched r' hr]
    exact ⟨hext, hd, hx⟩
  · obtain ⟨hext', hd', hy⟩ := h' i run' (hs.of_extends hext hd) fun id hid => (hgiven id hid).of_extends hext
    rw [orElse_failed r' hr]
    exact ⟨hext.trans hext', hd', hy⟩
  · rw [orElse_exhausted r' hr]
    exact ⟨hext, hd, hx⟩

/-- What is old at one step of a repetition is old at all later ones. -/
theorem RefersBack.iterate {step : α → Rule α} (h : ∀ x, RefersBack tokens (ids x ++ given) ids (step x)) {x : α}
    (hx : ids x ⊆ given) : RefersBack tokens given ids (Rule.iterate step x) := by
  intro i run hs hgiven
  have hold : ∀ id ∈ ids x ++ given, run.arena.IsOld id :=
    List.forall_mem_append.mpr ⟨fun id hid => hgiven id (hx hid), hgiven⟩
  clear hx
  induction hn : tokens.size - i using Nat.strongRecOn generalizing x i run with
  | _ n ih =>
    obtain ⟨hext, hd, hy⟩ := h x i run hs hold
    rw [Rule.iterate]
    rcases hr : step x tokens i run with ⟨⟨y, j⟩ | _ | _, run'⟩ <;> rw [hr] at hext hd hy
    · have hgiven' : ∀ id ∈ given, run'.arena.IsOld id := fun id hid => (hgiven id hid).of_extends hext
      simp only
      split
      · obtain ⟨hext', hd', hz⟩ := ih _ (by omega) j run' (hs.of_extends hext hd) hgiven'
          (List.forall_mem_append.mpr ⟨hy y j rfl, hgiven'⟩) rfl
        exact ⟨hext.trans hext', hd', hz⟩
      · exact ⟨hext, hd, hy⟩
    · refine ⟨hext, hd, fun z k hz id hid => ?_⟩
      cases hz
      exact (hold id (List.mem_append_left _ hid)).of_extends hext
    · refine ⟨hext, hd, fun z k hz => ?_⟩
      cases hz

end

/-! ## One law for each rule -/

section

variable {tokens : Array Token} {given : List NodeId}

/-- A rule that gives an old id, whatever old ids it is given. -/
def GivesOld (tokens : Array Token) (r : Rule NodeId) : Prop :=
  ∀ given, RefersBack tokens given (fun id => [id]) r

theorem givesOld_operation {right : Rule NodeId} (h : GivesOld tokens right) (c : Class) (o : Operator)
    {left : NodeId} (hleft : left ∈ given) :
    RefersBack tokens given (fun id => [id]) (operation c o right left) :=
  (refersBack_symbol c).bind fun _ => (h _).bind fun _ => refersBack_create (by simp [Node.children, hleft])

section

variable {enter : Level → Rule NodeId} (h : ∀ l, GivesOld tokens (enter l))
include h

theorem givesOld_atom : GivesOld tokens (atom enter) := fun _ =>
  (refersBack_leaf _).orElse <| (refersBack_leaf _).orElse <| (refersBack_symbol _).bind fun _ => (h _ _).bind fun _ =>
    (refersBack_symbol _).bind fun _ => refersBack_create (by simp [Node.children])

theorem givesOld_factor : GivesOld tokens (factor enter) := fun given =>
  ((refersBack_symbol _).bind fun _ => (h _ _).bind fun _ => refersBack_create (by simp [Node.children])).orElse
    (givesOld_atom h given)

theorem givesOld_productStep (left : NodeId) (given : List NodeId) :
    RefersBack tokens ([left] ++ given) (fun id => [id]) (productStep enter left) :=
  (givesOld_operation (givesOld_factor h) _ _ (by simp)).orElse (givesOld_operation (givesOld_factor h) _ _ (by simp))

theorem givesOld_product : GivesOld tokens (product enter) := fun given =>
  (givesOld_factor h given).bind fun _ => .iterate (fun x => givesOld_productStep h x _) (by simp)

theorem givesOld_sumStep (left : NodeId) (given : List NodeId) :
    RefersBack tokens ([left] ++ given) (fun id => [id]) (sumStep enter left) :=
  (givesOld_operation (givesOld_product h) _ _ (by simp)).orElse <|
    (givesOld_operation (givesOld_product h) _ _ (by simp)).orElse (givesOld_productStep h left given)

theorem givesOld_level (l : Level) : GivesOld tokens (level enter l) := by
  cases l with
  | sum =>
    exact fun given => (givesOld_factor h given).bind fun _ => .iterate (fun x => givesOld_sumStep h x _) (by simp)
  | product => exact givesOld_product h
  | factor => exact givesOld_factor h

end

theorem givesOld_expression (n : Nat) (l : Level) : GivesOld tokens (expression n l) := by
  induction n generalizing l with
  | zero => exact givesOld_level (fun _ _ => refersBack_exhausted) l
  | succ n ih => exact givesOld_level ih l

section

variable {expr : Rule NodeId} (h : GivesOld tokens expr)
include h

theorem givesOld_statement : GivesOld tokens (statement expr) := fun given =>
  ((refersBack_leaf _).bind fun _ => (refersBack_symbol _).bind fun _ => (h _).bind fun _ =>
    refersBack_create (by simp [Node.children])).orElse (h given)

theorem refersBack_nextStatement (items given : List NodeId) :
    RefersBack tokens (items ++ given) id (nextStatement expr items) :=
  (refersBack_symbol _).bind fun _ => (givesOld_statement h _).bind fun _ => refersBack_pure (by simp)

theorem refersBack_statements : RefersBack tokens given id (statements expr) := by
  refine (givesOld_statement h given).bind fun first => ?_
  have hitems : RefersBack tokens ([first] ++ given) id (Rule.iterate (nextStatement expr) [first]) :=
    .iterate (fun items => refersBack_nextStatement h items _) (by simp)
  exact hitems.bind fun _ => refersBack_pure (by simp)

theorem givesOld_program : GivesOld tokens (program expr) := by
  intro given
  refine (refersBack_statements h).bind fun items => ((refersBack_symbol _).orElse (refersBack_pure (by simp))).bind
    fun _ => refersBack_atEnd.bind fun _ => ?_
  unfold rootOf
  split
  · exact refersBack_pure (by simp)
  · exact refersBack_create (by simp [Node.children])

end

/-- A run keeps the arena descending, however it ends. -/
theorem descends_run {a : Arena} (h : Safe tokens a) (probe : Probe) :
    a.Extends (run tokens a probe).2.arena ∧ (run tokens a probe).2.arena.Descends :=
  have hprogram : GivesOld tokens (program (expression tokens.size .sum)) := givesOld_program (givesOld_expression _ _)
  have ⟨hext, hd, _⟩ := hprogram [] 0 ⟨a, probe⟩ h (List.forall_mem_nil _)
  ⟨hext, hd⟩

theorem descends_read {a : Arena} (h : Safe tokens a) : (read tokens a).2.Descends := by
  obtain ⟨hext, hd⟩ := descends_run h (.locate 0)
  rw [read]
  split
  · rename_i hrun
    rwa [hrun] at hd
  · rename_i first _ hrun
    rw [hrun] at hext hd
    have hs : Safe tokens first.arena := h.of_extends hext hd
    exact (descends_run hs _).2

end

end Formula.Grammar
