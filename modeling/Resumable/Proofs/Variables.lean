import Mathlib.Data.String.Basic
import Mathlib.Tactic.Abel
import Resumable.Proofs.Accounts

set_option autoImplicit false

/-!
# Variables in order

The variables stand in the order of their names, each name at most once.  Setting and removing a
variable keep this order, and because of it they exchange exactly what the variable held.
-/

namespace Resumable

namespace Names

/-- The variables stand in the order of their names. -/
def Sorted (names : Names) : Prop := names.Pairwise fun x y => x.1 < y.1

theorem get?_eq_none {names : Names} {name : String} (h : ∀ x ∈ names, name < x.1) :
    names.get? name = none := by
  unfold get?
  rw [List.lookup_eq_none_iff]
  intro x hx
  have := h x hx
  simpa using this.ne

theorem mem_insert {names : Names} {name : String} {v : Value} {x : String × Value}
    (h : x ∈ names.insert name v) : x = (name, v) ∨ x ∈ names := by
  induction names with
  | nil => exact Or.inl (by simpa [insert] using h)
  | cons y rest ih =>
      obtain ⟨other, u⟩ := y
      unfold insert at h
      split at h
      · simpa using h
      · split at h
        · rcases List.mem_cons.1 h with rfl | h
          · exact Or.inl rfl
          · exact Or.inr (List.mem_cons_of_mem _ h)
        · rcases List.mem_cons.1 h with rfl | h
          · exact Or.inr List.mem_cons_self
          · exact (ih h).imp_right (List.mem_cons_of_mem _)

theorem Sorted.insert {names : Names} (h : names.Sorted) (name : String) (v : Value) :
    (names.insert name v).Sorted := by
  induction names with
  | nil => exact List.pairwise_singleton _ _
  | cons y rest ih =>
      obtain ⟨other, u⟩ := y
      obtain ⟨hfirst, hrest⟩ := List.pairwise_cons.1 h
      unfold Names.insert
      split
      · next hlt =>
          refine List.pairwise_cons.2 ⟨fun x hx => ?_, h⟩
          rcases List.mem_cons.1 hx with rfl | hx
          · exact hlt
          · exact lt_trans hlt (hfirst x hx)
      · split
        · next heq =>
            subst heq
            exact List.pairwise_cons.2 ⟨hfirst, hrest⟩
        · next hlt hne =>
            refine List.pairwise_cons.2 ⟨fun x hx => ?_, ih hrest⟩
            rcases mem_insert hx with rfl | hx
            · exact lt_of_le_of_ne (not_lt.1 hlt) (Ne.symm hne)
            · exact hfirst x hx

theorem Sorted.erase {names : Names} (h : names.Sorted) (name : String) :
    (names.erase name).Sorted :=
  h.sublist List.filter_sublist

/-- Setting a variable exchanges what is held. -/
theorem holds_insert {names : Names} (h : names.Sorted) (name : String) (v : Value) :
    holds ((names.insert name v).map (·.2)) + holds (names.get? name)
      = holds v + holds (names.map (·.2)) := by
  induction names with
  | nil =>
      show holds [v] + holds (none : Option Value) = holds v + holds ([] : List Value)
      rw [holds_values_cons, holds_none, add_zero]
  | cons y rest ih =>
      obtain ⟨other, u⟩ := y
      obtain ⟨hfirst, hrest⟩ := List.pairwise_cons.1 h
      unfold Names.insert
      split
      · next hlt =>
          have hnone : Names.get? ((other, u) :: rest) name = none := by
            refine get?_eq_none fun x hx => ?_
            rcases List.mem_cons.1 hx with rfl | hx
            · exact hlt
            · exact lt_trans hlt (hfirst x hx)
          rw [hnone, holds_none, add_zero, List.map_cons, holds_values_cons]
      · split
        · next heq =>
            subst heq
            have hsome : Names.get? ((name, u) :: rest) name = some u := by
              simp [Names.get?]
            rw [hsome, holds_some, List.map_cons, List.map_cons, holds_values_cons,
              holds_values_cons]
            abel
        · next hlt hne =>
            have hskip : Names.get? ((other, u) :: rest) name = Names.get? rest name := by
              have : (name == other) = false := by simpa using hne
              simp [Names.get?, List.lookup_cons, this]
            rw [hskip, List.map_cons, List.map_cons, holds_values_cons, holds_values_cons,
              add_assoc, ih hrest]
            abel

/-- Removing a variable takes away what it held. -/
theorem holds_erase {names : Names} (h : names.Sorted) (name : String) :
    holds ((names.erase name).map (·.2)) + holds (names.get? name)
      = holds (names.map (·.2)) := by
  induction names with
  | nil => rfl
  | cons y rest ih =>
      obtain ⟨other, u⟩ := y
      obtain ⟨hfirst, hrest⟩ := List.pairwise_cons.1 h
      by_cases heq : name = other
      · subst heq
        have hkeep : Names.erase rest name = rest := by
          unfold Names.erase
          rw [List.filter_eq_self]
          intro x hx
          have := hfirst x hx
          simpa using this.ne'
        have hdrop : Names.erase ((name, u) :: rest) name = Names.erase rest name := by
          simp [Names.erase]
        have hsome : Names.get? ((name, u) :: rest) name = some u := by
          simp [Names.get?]
        rw [hdrop, hkeep, hsome, holds_some, List.map_cons, holds_values_cons, add_comm]
      · have hkeep : Names.erase ((other, u) :: rest) name = (other, u) :: Names.erase rest name := by
          simp [Names.erase, Ne.symm heq]
        have hskip : Names.get? ((other, u) :: rest) name = Names.get? rest name := by
          have : (name == other) = false := by simpa using heq
          simp [Names.get?, List.lookup_cons, this]
        rw [hkeep, hskip, List.map_cons, List.map_cons, holds_values_cons, holds_values_cons,
          add_assoc, ih hrest]

end Names

end Resumable
