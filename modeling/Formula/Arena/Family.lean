import Formula.Arena.Walk

/-!
# Families of arenas

Several arenas side by side, each with its number in the family as its identity. A node of one arena may refer to
nodes of others; in its own arena such a reference means nothing.
-/

namespace Formula

/-- Arenas told apart by their places. -/
structure Family where
  arenas : Array Arena
  id_getElem : ∀ (n : Nat) (h : n < arenas.size), arenas[n].id = n

namespace Family

/-- The family of `n` empty arenas. -/
def ofSize (n : Nat) : Family where
  arenas := Array.ofFn fun k : Fin n => Arena.empty k
  id_getElem := by simp [Arena.empty]

/-- The arena with the given number; an empty one of its own if the family has none. -/
def arena (f : Family) (n : Nat) : Arena :=
  f.arenas[n]?.getD (.empty n)

/-- Adds the node of a form to an arena and gives its handle. -/
def add (f : Family) (n : Nat) (v : Variant) (fields : v.Fields) : Handle v × Family :=
  (⟨(f.arena n).nextId⟩,
    { arenas := f.arenas.modify n fun a => (a.add v fields).2
      id_getElem := fun k h => by
        have hk := f.id_getElem k (by simpa using h)
        by_cases hkn : n = k <;> simp [Array.getElem_modify, hkn, Arena.add, hk] })

theorem id_arena (f : Family) (n : Nat) : (f.arena n).id = n := by
  unfold arena
  cases h : f.arenas[n]? with
  | none => rfl
  | some a =>
    obtain ⟨hn, rfl⟩ := Array.getElem?_eq_some_iff.1 h
    exact f.id_getElem n hn

/-- Making a node leaves every other arena as it is. -/
theorem arena_add_of_ne (f : Family) {n k : Nat} (h : n ≠ k) (v : Variant) (fields : v.Fields) :
    (f.add n v fields).2.arena k = f.arena k := by
  simp [add, arena, Array.getElem?_modify, h]

end Family

end Formula
