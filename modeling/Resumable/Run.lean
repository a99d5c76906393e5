import Resumable.Value

set_option autoImplicit false

/-!
# Computations that can be interrupted

A computation acts on a state and either gives a result or is interrupted.  There are three
interruptions, and they are kept apart: an exception was raised, which code may handle; the
computation was abandoned, which only a finalizer or the outermost caller contains; the fuel ran
out, which says nothing about what the computation would have done.  The state reached is kept in
every case.

`ensuring` is the one way to tie a clean-up to a computation: it happens after a result, after an
exception and after an abandonment.
-/

namespace Resumable

/-- Why a computation has no result. -/
inductive Interruption where
  /-- an exception was raised -/
  | raised (e : Exception)
  /-- the computation was abandoned -/
  | aborted
  /-- the fuel ran out -/
  | outOfFuel
  deriving DecidableEq, Repr, Inhabited

/-- A computation on a state of type `σ`. -/
abbrev Run (σ : Type) : Type → Type := EStateM Interruption σ

namespace Run

variable {σ τ ω α : Type}

/-- Raises an exception. -/
def raise (e : Exception) : Run σ α := fun s => .error (.raised e) s

/-- Does the clean-up if the computation raises or is abandoned. -/
def onInterruption (m : Run σ α) (cleanup : Run σ Unit) : Run σ α := fun s =>
  match m s with
  | .ok a s => .ok a s
  | .error .outOfFuel s => .error .outOfFuel s
  | .error reason s =>
      match cleanup s with
      | .ok _ s => .error reason s
      | .error reason s => .error reason s

/-- Does the clean-up however the computation ends. -/
def ensuring (m : Run σ α) (cleanup : Run σ Unit) : Run σ α := do
  let a ← onInterruption m cleanup
  cleanup
  return a

/-- Turns an exception that is raised into a result. -/
def attempt (m : Run σ α) : Run σ (Except Exception α) := fun s =>
  match m s with
  | .ok a s => .ok (.ok a) s
  | .error (.raised e) s => .ok (.error e) s
  | .error reason s => .error reason s

/-- Raises the exception of a failed attempt. -/
def ofExcept : Except Exception α → Run σ α
  | .ok a => pure a
  | .error e => raise e

/-- How a contained computation ended. -/
inductive Ending (α : Type) where
  | result (a : α)
  | raised (e : Exception)
  | aborted
  deriving DecidableEq, Repr, Inhabited

/-- Turns every interruption but the end of the fuel into a result. -/
def contain (m : Run σ α) : Run σ (Ending α) := fun s =>
  match m s with
  | .ok a s => .ok (.result a) s
  | .error (.raised e) s => .ok (.raised e) s
  | .error .aborted s => .ok .aborted s
  | .error .outOfFuel s => .error .outOfFuel s

/-- Carries out a computation on the shared half of a state. -/
def shared (m : Run ω α) : Run (τ × ω) α := fun (t, w) =>
  match m w with
  | .ok a w => .ok a (t, w)
  | .error reason w => .error reason (t, w)

/-- Carries out a computation with a private half added to the state, and gives that half back
together with how the computation ended. -/
def withPrivate (t : τ) (m : Run (τ × ω) α) (leave : τ → Run ω Unit) : Run ω α := fun w =>
  match m (t, w) with
  | .ok a (t, w) =>
      match leave t w with
      | .ok _ w => .ok a w
      | .error reason w => .error reason w
  | .error .outOfFuel (_, w) => .error .outOfFuel w
  | .error reason (t, w) =>
      match leave t w with
      | .ok _ w => .error reason w
      | .error reason w => .error reason w

theorem bind_apply {β : Type} (m : Run σ α) (f : α → Run σ β) (s : σ) :
    (m >>= f) s =
      match m s with
      | .ok a t => f a t
      | .error reason t => .error reason t := by
  show EStateM.bind m f s = _
  unfold EStateM.bind
  cases m s <;> rfl

theorem bind_ok {β : Type} {m : Run σ α} {f : α → Run σ β} {a : α} {s t : σ}
    (h : m s = .ok a t) : (m >>= f) s = f a t := by
  rw [bind_apply, h]

theorem bind_error {β : Type} {m : Run σ α} {f : α → Run σ β} {reason : Interruption} {s t : σ}
    (h : m s = .error reason t) : (m >>= f) s = .error reason t := by
  rw [bind_apply, h]

@[simp] theorem pure_apply (a : α) (s : σ) : (pure a : Run σ α) s = .ok a s := rfl

@[simp] theorem get_apply (s : σ) : (get : Run σ σ) s = .ok s s := rfl

@[simp] theorem set_apply (s t : σ) : (set t : Run σ PUnit) s = .ok () t := rfl

@[simp] theorem modify_apply (f : σ → σ) (s : σ) : (modify f : Run σ PUnit) s = .ok () (f s) := rfl

@[simp] theorem raise_apply (e : Exception) (s : σ) :
    (raise e : Run σ α) s = .error (.raised e) s := rfl

theorem attempt_raise (e : Exception) (s : σ) :
    attempt (raise e : Run σ α) s = .ok (.error e) s := rfl

theorem ofExcept_attempt (m : Run σ α) : (do ofExcept (← attempt m)) = m := by
  funext s
  show EStateM.bind (attempt m) ofExcept s = m s
  unfold EStateM.bind attempt
  cases h : m s with
  | ok a s => rfl
  | error reason s => cases reason <;> rfl

theorem onInterruption_ok {m : Run σ α} {cleanup : Run σ Unit} {a : α} {s t : σ}
    (h : m s = .ok a t) : onInterruption m cleanup s = .ok a t := by
  simp [onInterruption, h]

/-- A clean-up follows on how the computation ends, not on how it begins. -/
theorem ensuring_congr {m m' : Run σ α} {cleanup : Run σ Unit} {s s' : σ} (h : m s = m' s') :
    m.ensuring cleanup s = m'.ensuring cleanup s' := by
  simp only [ensuring, bind_apply, onInterruption, h]

theorem ensuring_ok {m : Run σ α} {cleanup : Run σ Unit} {a : α} {s t u : σ}
    (h : m s = .ok a t) (hc : cleanup t = .ok () u) : ensuring m cleanup s = .ok a u := by
  simp [ensuring, bind, EStateM.bind, onInterruption, h, hc, pure, EStateM.pure]

theorem ensuring_raised {m : Run σ α} {cleanup : Run σ Unit} {e : Exception} {s t u : σ}
    (h : m s = .error (.raised e) t) (hc : cleanup t = .ok () u) :
    ensuring m cleanup s = .error (.raised e) u := by
  simp [ensuring, bind, EStateM.bind, onInterruption, h, hc]

end Run

end Resumable
