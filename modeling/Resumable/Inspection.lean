import Resumable.Machine

set_option autoImplicit false

/-!
# Inspection: what an object refers to

A traversal presents to a visitor the values that a frame or a generator refers to, one by one, and
stops as soon as the visitor says so.  What an object refers to is what a visitor sees that never
stops.
-/

namespace Resumable

/-- A visitor: it may change a state, and it says whether to stop. -/
abbrev Visitor (σ : Type) : Type := Value → StateM σ Bool

namespace Visitor

variable {σ : Type}

/-- Presents values one by one until the visitor stops; says whether it stopped. -/
def visitAll (visit : Visitor σ) : List Value → StateM σ Bool
  | [] => pure false
  | v :: vs => do
      if ← visit v then return true
      visit.visitAll vs

/-- Goes on with further values unless the visitor has stopped. -/
def andThen (first second : StateM σ Bool) : StateM σ Bool := do
  if ← first then return true
  second

/-- The visitor that takes down every value. -/
def collecting : Visitor (List Value) := fun v seen => (false, seen ++ [v])

/-- The visitor that stops at an object and says so. -/
def looksFor (o : Value) : Visitor Bool := fun v found =>
  if v.sameIdentity o then (true, true) else (false, found)

/-- The visitor that takes down every value and stops once it has seen enough of them. -/
def counting (enough : Nat) : Visitor (List Value) := fun v seen =>
  (decide (enough ≤ seen.length + 1), seen ++ [v])

theorem visitAll_append (visit : Visitor σ) (vs us : List Value) :
    visit.visitAll (vs ++ us) = andThen (visit.visitAll vs) (visit.visitAll us) := by
  induction vs with
  | nil => rfl
  | cons v vs ih =>
      funext s
      simp only [List.cons_append, visitAll, andThen, bind, StateT.bind, pure]
      rw [ih]
      cases h : visit v s with
      | mk stop t => cases stop <;> rfl

end Visitor

namespace Frame

/-- Presents what a frame refers to: its code, local variables, stack, delegate, input and
delegation result. -/
def traverse {σ : Type} (f : Frame) (visit : Visitor σ) : StateM σ Bool :=
  Visitor.andThen (visit (.code f.code)) <|
  Visitor.andThen (visit.visitAll f.locals) <|
  Visitor.andThen (visit.visitAll f.stack.reverse) <|
  Visitor.andThen (visit.visitAll f.delegate.toList) <|
  Visitor.andThen (visit.visitAll f.input.toList) <|
  visit.visitAll f.delegationResult.toList

/-- What a frame refers to. -/
def referents (f : Frame) : List Value := (f.traverse Visitor.collecting []).2

/-- Whether an object is among what a frame refers to. -/
def refersDirectlyTo (f : Frame) (o : Value) : Bool := (f.traverse (Visitor.looksFor o) false).2

end Frame

namespace Generator

/-- Presents what a generator refers to: its frame, its code, and its closure unless that is
`none`. -/
def traverse {σ : Type} (g : Generator) (visit : Visitor σ) : StateM σ Bool :=
  Visitor.andThen (visit.visitAll (g.frame.map Value.frame).toList) <|
  Visitor.andThen (visit (.code g.code)) <|
  if g.closure.isNone then pure false else visit g.closure

/-- What a generator refers to. -/
def referents (g : Generator) : List Value := (g.traverse Visitor.collecting []).2

/-- Whether an object is the frame, the code or the closure of a generator.  Nothing refers to
`none`. -/
def refersDirectlyTo (g : Generator) (o : Value) : Bool :=
  !o.isNone &&
    ((g.frame.map fun r => (Value.frame r).sameIdentity o).getD false
      || (Value.code g.code).sameIdentity o || g.closure.sameIdentity o)

end Generator

end Resumable
