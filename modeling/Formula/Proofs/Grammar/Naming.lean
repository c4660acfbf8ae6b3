import Formula.Grammar.Class
import Mathlib.Data.List.Basic

/-!
# The text that names expected classes

The text for some classes names each of them once, in the order of the names (`describe_of_two_le`). No name has a comma
in it, so the text says which classes they are: two lists have the same text exactly if they have the same members
(`describe_eq_describe_iff`).
-/

namespace Formula.Class

variable {expected expected' cs cs' : List Class} {c : Class}

/-- The classes of the list, each once, in the order of their names. -/
def listed (expected : List Class) : List Class :=
  all.filter (· ∈ expected)

theorem mem_listed : c ∈ listed expected ↔ c ∈ expected := by
  rw [listed, List.mem_filter, decide_eq_true_iff, and_iff_right (mem_all c)]

theorem pairwise_listed (expected : List Class) : ((listed expected).map name).Pairwise (· < ·) := by
  have hall : (all.map name).Pairwise (· < ·) := by decide
  exact hall.sublist (List.filter_sublist.map name)

theorem listed_eq_listed_iff : listed expected = listed expected' ↔ ∀ c, c ∈ expected ↔ c ∈ expected' := by
  constructor
  · intro h c
    rw [← mem_listed, h, mem_listed]
  · intro h
    exact List.filter_congr fun c _ => decide_eq_decide.mpr (h c)

theorem describe_of_nil (h : listed expected = []) : describe expected = "<unreported>" := by
  rw [describe, show all.filter (· ∈ expected) = [] from h, List.map_nil]

theorem describe_of_singleton (h : listed expected = [c]) : describe expected = c.name := by
  rw [describe, show all.filter (· ∈ expected) = [c] from h, List.map_singleton]

theorem describe_of_two_le (h : 2 ≤ (listed expected).length) :
    describe expected = "one of " ++ ", ".intercalate ((listed expected).map name) := by
  rw [describe, show all.filter (· ∈ expected) = listed expected from rfl]
  match hlisted : listed expected with
  | [] | [_] => simp [hlisted] at h
  | c :: d :: cs => rfl

/-! ## The classes of a text -/

theorem name_injective : Function.Injective name := by
  intro c c' h
  cases c <;> cases c' <;> first | rfl | exact absurd h (by decide)

theorem comma_notMem_name (c : Class) : ',' ∉ c.name.toList := by
  cases c <;> decide

/-- The names with commas between them, and a blank in front of each but the first. -/
theorem toList_intercalate_name (c : Class) (cs : List Class) :
    (", ".intercalate ((c :: cs).map name)).toList =
      [','].intercalate (c.name.toList :: cs.map fun c => ' ' :: c.name.toList) := by
  rw [String.toList_intercalate]
  induction cs generalizing c with
  | nil => simp
  | cons d cs ih =>
    have hrest := ih d
    rw [List.map_cons, List.map_cons] at hrest
    rw [List.map_cons, List.map_cons, List.map_cons, List.map_cons, List.map_cons, List.intercalate_cons_cons, hrest,
      List.intercalate_cons_cons]
    cases cs <;> simp [List.intercalate_cons_cons]

theorem eq_of_intercalate_name (hne : cs ≠ []) (hne' : cs' ≠ [])
    (h : ", ".intercalate (cs.map name) = ", ".intercalate (cs'.map name)) : cs = cs' := by
  obtain ⟨c, cs, rfl⟩ := List.exists_cons_of_ne_nil hne
  obtain ⟨c', cs', rfl⟩ := List.exists_cons_of_ne_nil hne'
  have hpieces (c : Class) (cs : List Class) :
      ∀ piece ∈ c.name.toList :: cs.map fun c => ' ' :: c.name.toList, ',' ∉ piece := by
    refine List.forall_mem_cons.mpr ⟨comma_notMem_name c, List.forall_mem_map.mpr fun d _ => ?_⟩
    exact List.not_mem_cons_of_ne_of_not_mem (by decide) (comma_notMem_name d)
  have hsplit := congrArg (fun text => text.toList.splitOn ',') h
  simp only [toList_intercalate_name, List.splitOn_intercalate ',' (hpieces _ _) (List.cons_ne_nil _ _)] at hsplit
  obtain ⟨hhead, htail⟩ := List.cons_eq_cons.mp hsplit
  have hinjective : Function.Injective fun c : Class => ' ' :: c.name.toList := fun c d hcd =>
    name_injective (String.toList_inj.mp (List.cons_eq_cons.mp hcd).2)
  rw [name_injective (String.toList_inj.mp hhead), List.map_injective_iff.mpr hinjective htail]

/-- What a text begins with tells whether it names none, one or more classes. -/
theorem head?_describe (expected : List Class) :
    (listed expected = [] ∧ (describe expected).toList.head? = some '<') ∨
    (∃ c, listed expected = [c] ∧ describe expected = c.name ∧ c.name.toList.head? ≠ some '<' ∧
      c.name.toList.head? ≠ some 'o') ∨
    2 ≤ (listed expected).length ∧ (describe expected).toList.head? = some 'o' := by
  match hlisted : listed expected with
  | [] =>
    refine .inl ⟨rfl, ?_⟩
    rw [describe_of_nil hlisted]
    rfl
  | [c] =>
    refine .inr (.inl ⟨c, rfl, describe_of_singleton hlisted, ?_⟩)
    cases c <;> decide
  | c :: d :: cs =>
    have htwo : 2 ≤ (listed expected).length := by simp [hlisted]
    refine .inr (.inr ⟨hlisted ▸ htwo, ?_⟩)
    rw [describe_of_two_le htwo, String.toList_append]
    rfl

/-- Lists of classes are described by the same text exactly if they have the same members. -/
theorem describe_eq_describe_iff : describe expected = describe expected' ↔ ∀ c, c ∈ expected ↔ c ∈ expected' := by
  rw [← listed_eq_listed_iff]
  constructor
  · intro h
    have hhead := congrArg (fun text => text.toList.head?) h
    -- texts of different forms begin differently, so only texts of one form are left
    rcases head?_describe expected with ⟨hnil, ho⟩ | ⟨c, hone, hname, hnil, hmore⟩ | ⟨hmore, ho⟩ <;>
      rcases head?_describe expected' with ⟨hnil', ho'⟩ | ⟨c', hone', hname', hnil', hmore'⟩ | ⟨hmore', ho'⟩ <;>
      simp_all only [Option.some.injEq, Char.reduceEq, ne_eq, not_true_eq_false, List.cons.injEq, and_true]
    · exact name_injective h
    · have hne (l : List Class) (hl : 2 ≤ l.length) : l ≠ [] := fun hnil => by simp [hnil] at hl
      rw [describe_of_two_le hmore, describe_of_two_le hmore'] at h
      refine eq_of_intercalate_name (hne _ hmore) (hne _ hmore') (String.toList_inj.mp ?_)
      simpa [String.toList_append] using congrArg String.toList h
  · intro h
    rw [describe, describe, show all.filter (· ∈ expected) = all.filter (· ∈ expected') from h]

end Formula.Class
