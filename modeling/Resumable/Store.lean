set_option autoImplicit false

/-!
# Stores of counted cells

Objects of one sort live in a store.  A cell holds the content of an object and the number of its
owners; the object exists as long as there is one.  Cells are numbered from zero in the order of
allocation and a number is never used again, so it is the identity of its object.

Reading and writing are total: an index that was never allocated reads as an empty cell without
owners, and writing to it fills the gap with such cells.  The laws `get_set_self` and `get_set_ne`
therefore hold without any condition on the index.
-/

namespace Resumable

/-- The content of an object and the number of its owners. -/
structure Cell (α : Type) where
  owners : Nat
  content : α
  deriving DecidableEq, Repr, Inhabited

/-- The objects of one sort. -/
structure Store (α : Type) where
  cells : Array (Cell α)
  deriving DecidableEq, Repr, Inhabited

namespace Store

variable {α : Type}

/-- The store without objects. -/
def empty : Store α := ⟨#[]⟩

/-- The number of objects ever allocated. -/
def size (s : Store α) : Nat := s.cells.size

variable [Inhabited α]

/-- A cell that no object occupies. -/
def vacant : Cell α := ⟨0, default⟩

/-- The cell at an index. -/
def get (s : Store α) (i : Nat) : Cell α := s.cells[i]?.getD vacant

/-- Replaces the cell at an index. -/
def set (s : Store α) (i : Nat) (c : Cell α) : Store α :=
  if i < s.cells.size then ⟨s.cells.setIfInBounds i c⟩
  else ⟨(s.cells ++ Array.replicate (i - s.cells.size) vacant).push c⟩

/-- The content of an object. -/
def content (s : Store α) (i : Nat) : α := (s.get i).content

/-- The number of owners of an object. -/
def owners (s : Store α) (i : Nat) : Nat := (s.get i).owners

/-- Replaces the content of an object. -/
def setContent (s : Store α) (i : Nat) (a : α) : Store α := s.set i { s.get i with content := a }

/-- Replaces the number of owners of an object. -/
def setOwners (s : Store α) (i : Nat) (n : Nat) : Store α := s.set i { s.get i with owners := n }

/-- Makes an object with one owner. -/
def alloc (s : Store α) (a : α) : Nat × Store α := (s.cells.size, ⟨s.cells.push ⟨1, a⟩⟩)

theorem get_set_self (s : Store α) (i : Nat) (c : Cell α) : (s.set i c).get i = c := by
  unfold set get
  split
  · next h => simp [h]
  · next h =>
      have : (s.cells ++ Array.replicate (i - s.cells.size) (vacant : Cell α)).size = i := by
        simp; omega
      rw [Array.getElem?_push, this, if_pos rfl, Option.getD_some]

theorem get_set_ne (s : Store α) {i j : Nat} (c : Cell α) (h : i ≠ j) :
    (s.set i c).get j = s.get j := by
  unfold set get
  split
  · simp [h]
  · next hi =>
      have hsize : (s.cells ++ Array.replicate (i - s.cells.size) (vacant : Cell α)).size = i := by
        simp; omega
      rw [Array.getElem?_push, hsize, if_neg (Ne.symm h), Array.getElem?_append]
      split
      · rfl
      · next hj =>
          rw [Array.getElem?_eq_none (Nat.le_of_not_lt hj), Array.getElem?_replicate]
          split <;> rfl

theorem get_set (s : Store α) (i j : Nat) (c : Cell α) :
    (s.set i c).get j = if i = j then c else s.get j := by
  split
  · next h => subst h; exact get_set_self s i c
  · next h => exact get_set_ne s c h

theorem get_alloc_self (s : Store α) (a : α) : (s.alloc a).2.get (s.alloc a).1 = ⟨1, a⟩ := by
  simp [alloc, get]

theorem get_alloc_ne (s : Store α) (a : α) {j : Nat} (h : j ≠ s.size) :
    (s.alloc a).2.get j = s.get j := by
  simp only [size] at h
  simp [alloc, get, Array.getElem?_push, h]

@[simp] theorem content_setContent (s : Store α) (i j : Nat) (a : α) :
    (s.setContent i a).content j = if i = j then a else s.content j := by
  unfold setContent content
  rw [get_set]
  split <;> rfl

@[simp] theorem owners_setContent (s : Store α) (i j : Nat) (a : α) :
    (s.setContent i a).owners j = s.owners j := by
  unfold setContent owners
  rw [get_set]
  split
  · next h => subst h; rfl
  · rfl

@[simp] theorem content_setOwners (s : Store α) (i j n : Nat) :
    (s.setOwners i n).content j = s.content j := by
  unfold setOwners content
  rw [get_set]
  split
  · next h => subst h; rfl
  · rfl

@[simp] theorem owners_setOwners (s : Store α) (i j n : Nat) :
    (s.setOwners i n).owners j = if i = j then n else s.owners j := by
  unfold setOwners owners
  rw [get_set]
  split <;> rfl

end Store

end Resumable
