import Formula.Arena.Family
import Formula.Proofs.Arena.Stability

/-!
# Handles of several arenas

Nodes of any form are made in the arenas of a family, in any order. `f.create c` makes one of them and `f.createAll cs`
one after the other; each gives the nodes that were made, with their handles. All the while the arenas hold these nodes
and no others, each arena its own in the order in which they were made (`Records`), so a handle means the fields that it
was given for in the one arena, and nothing in the others (`records_createAll`, `handles_keep`).
-/

namespace Formula

/-- A node of some form, to be made in one of so many arenas. -/
structure Creation (n : Nat) where
  place : Fin n
  variant : Variant
  fields : variant.Fields

/-- A node that was made, with the handle that was given for it. -/
structure Creation.Made (n : Nat) extends Creation n where
  handle : Handle variant

namespace Creation.Made

variable {n : Nat}

def node (m : Made n) : Node :=
  .ofFields m.variant m.fields

/-- The node as its arena lists it. -/
def entry (m : Made n) : NodeId × Node :=
  (m.handle.id, m.node)

end Creation.Made

open Creation (Made)

namespace Arena

variable {a : Arena} {id : NodeId} {node : Node}

theorem toList_push (a : Arena) (node : Node) : (a.push node).toList = a.toList ++ [(a.nextId, node)] := by
  simp [toList, push, nextId, size, List.mapIdx_concat]

theorem mem_toList : (id, node) ∈ a.toList ↔ a.node? id = some node := by
  obtain ⟨arena, index⟩ := id
  rw [node?_eq, toList, List.mem_mapIdx]
  constructor
  · rintro ⟨i, hi, heq⟩
    cases heq
    simp
  · intro h
    split at h
    · rename_i harena
      obtain ⟨hi, hn⟩ := Array.getElem?_eq_some_iff.mp h
      exact ⟨index, by simpa using hi, by simpa [hn] using harena.symm⟩
    · cases h

end Arena

namespace Family

variable {n : Nat} {f : Family} {made : List (Made n)}

/-- Makes a node and gives its handle. -/
def create (f : Family) (c : Creation n) : Made n × Family :=
  let (handle, f) := f.add c.place c.variant c.fields
  (⟨c, handle⟩, f)

/-- Makes nodes, from the first on. -/
def createAll (f : Family) : List (Creation n) → List (Made n) × Family
  | [] => ([], f)
  | c :: cs =>
    let (m, f) := f.create c
    let (made, f) := f.createAll cs
    (m :: made, f)

/-- What an arena of the family holds are the nodes that were made there, in order, and no handle was given twice. -/
structure Records (f : Family) (made : List (Made n)) : Prop where
  size_eq : f.arenas.size = n
  toList_eq (p : Fin n) : (f.arena p).toList = (made.filter fun m => m.place = p).map Made.entry
  nodup : (made.map fun m => m.handle.id).Nodup

theorem arena_ofSize (n p : Nat) : (ofSize n).arena p = .empty p := by
  by_cases hp : p < n <;> simp [arena, ofSize, hp]

theorem arena_add_self (f : Family) {p : Nat} (hp : p < f.arenas.size) (v : Variant) (fields : v.Fields) :
    (f.add p v fields).2.arena p = (f.arena p).push (.ofFields v fields) := by
  simp [arena, add, Arena.add, hp, Array.getElem_modify_self]

theorem records_ofSize (n : Nat) : (ofSize n).Records (n := n) [] where
  size_eq := by simp [ofSize]
  toList_eq p := by
    rw [arena_ofSize]
    rfl
  nodup := List.nodup_nil

/-- What was made is still there. -/
theorem Records.node?_eq (h : f.Records made) {m : Made n} (hm : m ∈ made) :
    (f.arena m.place).node? m.handle.id = some m.node := by
  rw [← Arena.mem_toList, h.toList_eq]
  exact List.mem_map_of_mem (List.mem_filter.mpr ⟨hm, decide_eq_true rfl⟩)

theorem Records.arena_eq (h : f.Records made) {m : Made n} (hm : m ∈ made) : m.handle.id.arena = m.place :=
  (Arena.arena_eq_of_node? (h.node?_eq hm)).trans (f.id_arena _)

/-- The arena gives the new node an id that none of its nodes has. -/
theorem Records.nextId_notMem (h : f.Records made) (p : Fin n) :
    (f.arena p).nextId ∉ made.map fun m => m.handle.id := by
  intro hmem
  obtain ⟨m, hm, hid⟩ := List.mem_map.mp hmem
  have hplace : (m.place : Nat) = p := by rw [← h.arena_eq hm, hid, Arena.nextId, f.id_arena]
  have hnode := h.node?_eq hm
  rw [hplace, hid, Arena.node?_nextId] at hnode
  cases hnode

theorem Records.create (h : f.Records made) (c : Creation n) :
    (f.create c).2.Records (made ++ [(f.create c).1]) := by
  have hself : (f.create c).2.arena c.place = (f.arena c.place).push (f.create c).1.node :=
    f.arena_add_self (by rw [h.size_eq]; exact c.place.isLt) c.variant c.fields
  refine ⟨?size, fun p => ?list, ?nodup⟩
  case size => simp [Family.create, add, h.size_eq]
  case list =>
    rw [List.filter_append, List.map_append, ← h.toList_eq]
    by_cases hp : c.place = p
    · subst hp
      have hmade : [(f.create c).1].filter (fun m => m.place = c.place) = [(f.create c).1] :=
        List.filter_eq_self.mpr (by simp [Family.create])
      rw [hself, Arena.toList_push, hmade]
      rfl
    · have hother : (f.create c).2.arena p = f.arena p :=
        f.arena_add_of_ne (fun heq => hp (Fin.ext heq)) c.variant c.fields
      have hnone : [(f.create c).1].filter (fun m => m.place = p) = [] :=
        List.filter_eq_nil_iff.mpr (by simpa [Family.create] using hp)
      rw [hother, hnone, List.map_nil, List.append_nil]
  case nodup =>
    have hnodup := h.nodup.concat (h.nextId_notMem c.place)
    rw [List.concat_eq_append] at hnodup
    rw [List.map_append]
    exact hnodup

theorem Records.createAll (h : f.Records made) (cs : List (Creation n)) :
    (f.createAll cs).2.Records (made ++ (f.createAll cs).1) := by
  induction cs generalizing f made with
  | nil => simpa [Family.createAll] using h
  | cons c cs ih => simpa [Family.createAll] using ih (h.create c)

/-- Whatever is made, and wherever, the arenas hold what was made and nothing else. -/
theorem records_createAll (cs : List (Creation n)) : ((ofSize n).createAll cs).2.Records ((ofSize n).createAll cs).1 :=
  (records_ofSize n).createAll cs

theorem map_toCreation_createAll (f : Family) (cs : List (Creation n)) :
    (f.createAll cs).1.map Made.toCreation = cs := by
  induction cs generalizing f with
  | nil => rfl
  | cons c cs ih => exact congrArg (c :: ·) (ih _)

theorem createAll_append (f : Family) (cs later : List (Creation n)) :
    (f.createAll (cs ++ later)).2 = ((f.createAll cs).2.createAll later).2 := by
  induction cs generalizing f with
  | nil => rfl
  | cons c cs ih => exact ih (f.create c).2

/-! ## What a handle means -/

section

variable (h : f.Records made) {m : Made n} (hm : m ∈ made)
include h hm

theorem Records.get?_eq : (f.arena m.place).get? m.handle = some m.fields := by
  rw [Arena.get?, h.node?_eq hm]
  exact Node.fields?_ofFields m.variant m.fields

/-- A handle means nothing in another arena, whatever that one holds. -/
theorem Records.node?_eq_none {p : Nat} (hp : p ≠ m.place) : (f.arena p).node? m.handle.id = none := by
  rw [Arena.node?_eq, f.id_arena, h.arena_eq hm, if_neg hp.symm]

/-- The node of a handle has the form of the handle and no other. -/
theorem Records.fields?_eq_none {v : Variant} (hv : v ≠ m.variant) :
    ((f.arena m.place).node? m.handle.id).bind (Node.fields? v) = none := by
  rw [h.node?_eq hm]
  exact Node.fields?_eq_none (by simpa [Made.node] using hv)

end

theorem Records.size_arena (h : f.Records made) (p : Fin n) :
    (f.arena p).size = (made.map Made.toCreation).countP fun c => c.place = p := by
  have hlength := congrArg List.length (h.toList_eq p)
  rw [List.length_map, ← List.countP_eq_length_filter] at hlength
  rw [List.countP_map, Function.comp_def, ← hlength, Arena.toList, List.length_mapIdx, Array.length_toList, Arena.size]

/-- However the nodes are spread over the arenas, and whatever is made later, a handle keeps giving the fields that it
was made with; in every other arena it means nothing, and as another form its node is not to be had. No two handles are
the same. Each arena lists the nodes that were made there, in order and with the ids of their handles. -/
theorem handles_keep (cs later : List (Creation n)) :
    let made := ((ofSize n).createAll cs).1
    let f := ((ofSize n).createAll cs).2
    let g := ((ofSize n).createAll (cs ++ later)).2
    made.map Made.toCreation = cs ∧
    (∀ m ∈ made, (g.arena m.place).get? m.handle = some m.fields ∧
      (∀ p : Nat, p ≠ m.place → (g.arena p).node? m.handle.id = none ∧ (g.arena p).get? m.handle = none) ∧
      ∃ node, (g.arena m.place).node? m.handle.id = some node ∧ ∀ v ≠ m.variant, node.fields? v = none) ∧
    (∀ (i j : Nat) (hi : i < made.length) (hj : j < made.length),
      made[i].handle.id = made[j].handle.id ↔ i = j) ∧
    ∀ p : Fin n, (f.arena p).size = cs.countP (fun c => c.place = p) ∧
      (f.arena p).toList = (made.filter fun m => m.place = p).map Made.entry := by
  intro made f g
  have hf : f.Records made := records_createAll cs
  have hcs : made.map Made.toCreation = cs := map_toCreation_createAll _ cs
  have hg : g.Records (made ++ (f.createAll later).1) := by
    have hlater : g = (f.createAll later).2 := createAll_append _ cs later
    exact hlater ▸ hf.createAll later
  refine ⟨hcs, fun m hm => ?keep, fun i j hi hj => ?distinct, fun p => ⟨?size, hf.toList_eq p⟩⟩
  case keep =>
    have hmg := List.mem_append_left (f.createAll later).1 hm
    refine ⟨hg.get?_eq hmg, fun p hp => ?_, m.node, hg.node?_eq hmg, fun v hv => ?_⟩
    · have hnone := hg.node?_eq_none hmg hp
      exact ⟨hnone, by rw [Arena.get?, hnone]; rfl⟩
    · simpa [hg.node?_eq hmg] using hg.fields?_eq_none hmg hv
  case distinct =>
    have hi' : i < (made.map fun m => m.handle.id).length := by simpa using hi
    have hj' : j < (made.map fun m => m.handle.id).length := by simpa using hj
    have hinj : (made.map fun m => m.handle.id)[i] = (made.map fun m => m.handle.id)[j] ↔ i = j :=
      hf.nodup.getElem_inj_iff
    rwa [List.getElem_map, List.getElem_map] at hinj
  case size => rw [hf.size_arena, hcs]

end Family

end Formula
