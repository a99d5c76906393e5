import Resumable.Form

set_option autoImplicit false

/-!
# Ownership

A value that is copied adds an owner to what it refers to, and one that is forgotten takes an owner
away.  The object that loses its last owner is disposed of at that moment, which may run code: a
generator is finalized, and then lets go of what it holds.

Several objects are let go of one after the other, and one that cannot be disposed of does not spare
the others.

The values of a computation in progress are owned by it.  `owning` ties the end of that ownership
to the computation, whichever way it ends.
-/

namespace Resumable

namespace World

/-- Adds an owner to what a value refers to, as a computation. -/
def share (v : Value) : Run World Unit := modify (·.retain v)

/-- Adds an owner to what each of the values refers to, as a computation. -/
def shareAll (vs : List Value) : Run World Unit := modify (·.retainAll vs)

end World

namespace Engine

/-- Takes an owner away from an object, and disposes of the object if it was the last. -/
def releaseObject (e : Engine) (o : Object) : Run World Unit := fun w =>
  match w.owners o with
  | 0 => .ok () w
  | 1 =>
      match e.perform (.reclaim o) (w.setOwners 0 o) with
      | .ok _ w => .ok () w
      | .error reason w => .error reason w
  | n + 2 => .ok () (w.setOwners (n + 1) o)

/-- Takes an owner away from each of the objects, in order. -/
def releaseObjects (e : Engine) : List Object → Run World Unit
  | [] => pure ()
  | o :: os => Run.ensuring (e.releaseObject o) (e.releaseObjects os)

/-- Forgets a value. -/
def release (e : Engine) (v : Value) : Run World Unit := e.releaseObjects v.objects

/-- Forgets values, in order. -/
def releaseAll (e : Engine) (vs : List Value) : Run World Unit :=
  e.releaseObjects (Value.objectsOfAll vs)

/-- Forgets an exception. -/
def releaseException (e : Engine) (exception : Exception) : Run World Unit :=
  e.releaseAll exception.args

/-- Forgets an exception, if there is one. -/
def releasePending (e : Engine) : Option Exception → Run World Unit
  | none => pure ()
  | some exception => e.releaseException exception

/-- Carries out a computation and then forgets a value, whichever way the computation ends. -/
def owning {α : Type} (e : Engine) (v : Value) (m : Run World α) : Run World α :=
  m.ensuring (e.release v)

theorem release_of_objects_nil (e : Engine) {v : Value} (h : v.objects = []) (w : World) :
    e.release v w = .ok () w := by
  rw [release, h]; rfl

theorem releaseObject_of_two_le (e : Engine) {o : Object} {w : World} {n : Nat}
    (h : w.owners o = n + 2) : e.releaseObject o w = .ok () (w.setOwners (n + 1) o) := by
  simp [releaseObject, h]

end Engine

end Resumable
