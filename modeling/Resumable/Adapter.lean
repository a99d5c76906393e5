import Resumable.Machine

set_option autoImplicit false

/-!
# Pulling items from a generator

A pull resumes a generator and gives its value or its exception as an item.  After the end of the
iteration, or after an exception, there are no more items and the generator is left alone.
-/

namespace Resumable

/-- A generator that items are pulled from, and whether there are no more. -/
structure Adapter where
  generator : GeneratorRef
  done : Bool
  deriving DecidableEq, Repr, Inhabited

namespace Adapter

/-- Starts to pull items from a generator. -/
def new (g : GeneratorRef) : Adapter := ⟨g, false⟩

/-- Pulls an item. -/
def pull (e : Engine) (a : Adapter) : Run World (Option (Except Exception Value) × Adapter) :=
  if a.done then pure (none, a)
  else do
    match ← Run.attempt (e.nextOrEnd a.generator) with
    | .ok (some v) => return (some (.ok v), a)
    | .ok none => return (none, { a with done := true })
    | .error exception => return (some (.error exception), { a with done := true })

end Adapter

end Resumable
