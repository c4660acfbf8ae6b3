import Formula.Proofs.Engine.Events
import Formula.Proofs.Engine.Making
import Formula.Proofs.Grammar.Descent

/-!
# Engines that refer back

An engine makes nodes of whatever ids it has: those it was given, those of other arenas, and those it is handed with
tokens and nodes. If it has no other ones, that is if each node that it asks for refers only to ids that the arena has
handed out or that are of other arenas (`Engine.RefersBack`), then the arena goes on to descend (`Engine.safe_run`). The
leaves that are made for tokens have no children, and the grammar refers back by itself.
-/

namespace Formula

namespace Bench

/-- The arena descends, and no token that is finished comes with an id that the arena has yet to hand out. -/
structure Safe (b : Bench) : Prop where
  descends : b.arena.Descends
  payload {t : Token} {span : Span} {id : NodeId} : .token t span ∈ b.store → t.payload = some id → b.arena.IsOld id

variable {b b' : Bench} {limit : Nat}

/-- More nodes and fewer entries are safe if the arena still descends. -/
theorem Safe.of_extends (h : b.Safe) (hext : b.arena.Extends b'.arena) (hsubset : b'.store ⊆ b.store)
    (hd : b'.arena.Descends) : b'.Safe :=
  ⟨hd, fun ht hp => (h.payload (hsubset ht) hp).of_extends hext⟩

theorem isLeaf_of_mem_supply_leaves {node : Node} (h : node ∈ b.supply.leaves) : node.isLeaf = true := by
  rw [Supply.leaves] at h
  split at h
  · rename_i l _ _
    exact l.isLeaf_of_leaf? (Option.mem_toList.mp h)
  · cases h

theorem Safe.next (h : b.Safe) : b.next.2.Safe := by
  have harena := b.arena_next
  refine h.of_extends ⟨_, harena⟩ b.hands_next.subset ?_
  rw [harena]
  exact h.descends.append_leaves fun _ => isLeaf_of_mem_supply_leaves

theorem Safe.resumes (h : b.Safe) (hresumes : b.Resumes b') : b'.Safe := by
  have harena := hresumes.arena_eq
  exact h.of_extends (harena ▸ b.arena.extends_refl) hresumes.hands.subset (harena ▸ h.descends)

theorem Safe.request (h : b.Safe) : b.request.2.Safe :=
  h.next.resumes b.resumes_request

/-- A token comes with no id, with that of its new leaf, or with the one that it was finished with. -/
theorem Safe.isOld_payload (h : b.Safe) {t : Token} {id : NodeId} (ht : b.next.1 = .ok (some t))
    (hp : t.payload = some id) : b.next.2.arena.IsOld id := by
  have hext : b.arena.Extends b.next.2.arena := ⟨_, b.arena_next⟩
  rw [Bench.next, Supply.next] at ht
  split at ht
  · cases ht
  · cases ht
  · rename_i t' span rest hentries
    cases ht
    have hmem : .token t span ∈ b.supply.entries := hentries ▸ List.mem_cons_self
    exact (h.payload (mem_store_of_mem hmem) hp).of_extends hext
  · rename_i l rest hentries
    split at ht
    · cases ht
      cases hp
    · rename_i conversion hleaf
      split at ht
      · cases ht
      · rename_i node hvalue
        cases ht
        cases hp
        have harena : b.next.2.arena = b.arena.push node := by
          simp [Bench.next, Supply.next, hentries, hleaf, hvalue]
        rw [harena]
        exact b.arena.isOld_push_nextId node

/-- The tokens that are taken come with no ids that the arena has yet to hand out then. -/
theorem Safe.drain (h : b.Safe) (taken : Array (Token × Span))
    (htaken : ∀ p ∈ taken.toList, ∀ id, p.1.payload = some id → b.arena.IsOld id) :
    (b.drain taken).2.Safe ∧ b.arena.Extends (b.drain taken).2.arena ∧
      ∀ l, (b.drain taken).1 = .ok l → ∀ p ∈ l, ∀ id, p.1.payload = some id → (b.drain taken).2.arena.IsOld id := by
  fun_induction Bench.drain taken b with
  | case1 taken b t b' hnext ih =>
    have hext : b.arena.Extends b'.arena := ⟨_, by rw [← b.arena_next, hnext]⟩
    have hsafe : b'.Safe := by simpa only [hnext] using h.next
    have ht : ∀ id, t.payload = some id → b'.arena.IsOld id := fun id hp => by
      simpa only [hnext] using h.isOld_payload (by rw [hnext]) hp
    obtain ⟨hdrain, hext', hold⟩ := ih hsafe fun p hp id hid => by
      rw [Array.toList_push] at hp
      rcases List.mem_append.mp hp with hp | hp
      · exact (htaken p hp id hid).of_extends hext
      · obtain rfl := List.mem_singleton.mp hp
        exact ht id hid
    exact ⟨hdrain, hext.trans hext', hold⟩
  | case2 taken b b' hnext =>
    have hext : b.arena.Extends b'.arena := ⟨_, by rw [← b.arena_next, hnext]⟩
    refine ⟨by simpa only [hnext] using h.next, hext, fun l hl p hp id hid => ?_⟩
    cases hl
    exact (htaken p hp id hid).of_extends hext
  | case3 taken b f b' hnext =>
    have hext : b.arena.Extends b'.arena := ⟨_, by rw [← b.arena_next, hnext]⟩
    refine ⟨by simpa only [hnext] using h.next, hext, fun l hl => ?_⟩
    cases hl

theorem Safe.readProgram (h : b.Safe) (limit : Nat) : (b.readProgram limit).2.Safe := by
  obtain ⟨nodes, hnodes⟩ := b.exists_programMakes limit
  refine h.of_extends ⟨nodes, hnodes.arena_eq⟩ (b.hands_readProgram limit).subset ?_
  obtain ⟨hdrain, -, hold⟩ := h.drain #[] (List.forall_mem_nil _)
  rw [Bench.readProgram]
  rcases hb : b.drain #[] with ⟨f | taken, b'⟩ <;> rw [hb] at hdrain hold
  · exact hdrain.descends
  · simp only
    split
    · exact hdrain.descends
    · have hsafe : Grammar.Safe (taken.map Prod.fst).toArray b'.arena := by
        refine ⟨hdrain.descends, fun {t id} ht hp => ?_⟩
        obtain ⟨p, hpmem, rfl⟩ := List.mem_map.mp (List.mem_toArray.mp ht)
        exact hold taken rfl p hpmem id hp
      have hread := Grammar.descends_read hsafe
      rcases hr : Grammar.read (taken.map Prod.fst).toArray b'.arena with ⟨root | ⟨position, expected⟩, a⟩ <;>
        rw [hr] at hread <;> exact hread

theorem Safe.requestProgram (h : b.Safe) (limit : Nat) : (b.requestProgram limit).2.Safe := by
  rcases b.resumes_requestProgram limit with ⟨-, hresumes⟩ | ⟨-, hresumes⟩
  · exact (h.readProgram limit).resumes hresumes
  · exact (h.drain #[] (List.forall_mem_nil _)).1.resumes hresumes

end Bench

namespace Engine

variable {α : Type}

/-- Each node that the engine asks for, from the bench on, refers only to ids that the arena has handed out by then or
that are of other arenas. -/
def RefersBack : Engine α → Bench → Prop
  | done _, _ => True
  | next k, b => (k b.request.1).RefersBack b.request.2
  | create node k, b =>
    (∀ child ∈ node.children, b.arena.IsOld child) ∧ (k (b.create node).1).RefersBack (b.create node).2
  | record root k, b => k.RefersBack (b.record root)
  | look k, b => (k b.arena b.root b.supply.span).RefersBack b
  | readProgram limit k, b => (k (b.requestProgram limit).1).RefersBack (b.requestProgram limit).2

/-- An engine that refers back keeps the arena descending, whatever it does besides. -/
theorem safe_run (e : Engine α) {b : Bench} (h : e.RefersBack b) (hb : b.Safe) : (e.run b).2.Safe := by
  induction e generalizing b with
  | done value => exact hb
  | next k ih => exact ih _ h hb.request
  | create node k ih =>
    obtain ⟨hnode, h⟩ := h
    exact ih _ h (hb.of_extends (b.arena.extends_push node) (List.Subset.refl _) (hb.descends.push hnode))
  | record root k ih => exact ih h ⟨hb.descends, hb.payload⟩
  | look k ih => exact ih _ _ _ h hb
  | readProgram limit k ih => exact ih _ h (hb.requestProgram limit)

end Engine

end Formula
