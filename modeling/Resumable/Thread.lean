set_option autoImplicit false

/-!
# Threads

A thread carries the budget of nested resumptions and the stream that diagnostics are written to.
A level is taken before a body is resumed and given back when the resume ends; once all levels up
to the limit are taken, the next one is refused.

A sink is what stands behind the stream.  A line arrives as one write for its text, unless that is
empty, and one write for the line break.
-/

namespace Resumable

/-- What stands behind a diagnostic stream. -/
inductive Sink where
  /-- collects what is written -/
  | collecting
  /-- every write fails -/
  | broken
  /-- every write first writes to the stream that is being written to, which is refused and noted;
  then it collects -/
  | reentrant
  /-- collects what is written, and cannot flush -/
  | unflushable
  /-- the stream is being written to by someone else, so that every write is refused -/
  | inUse
  deriving DecidableEq, Repr, Inhabited

/-- Why a diagnostic could not be written. -/
inductive DiagnosticError where
  /-- the sink failed -/
  | io (reason : String)
  /-- the stream is being written to -/
  | streamBusy
  deriving DecidableEq, Repr, Inhabited

namespace DiagnosticError

/-- The error as text. -/
def message : DiagnosticError → String
  | io reason => "failed to write diagnostic: " ++ reason
  | streamBusy => "diagnostic stream is already in use"

end DiagnosticError

/-- The budget of nested resumptions and the diagnostic stream. -/
structure Thread where
  /-- tells a thread from those installed before it -/
  id : Nat
  limit : Nat
  /-- the number of levels taken -/
  depth : Nat
  sink : Sink
  deriving DecidableEq, Repr, Inhabited

namespace Thread

/-- The number of levels that a thread has unless told otherwise. -/
def defaultLimit : Nat := 1000

/-- Takes a level, unless all of them are taken. -/
def enter? (t : Thread) : Option Thread :=
  if t.limit ≤ t.depth then none else some { t with depth := t.depth + 1 }

/-- Gives a level back. -/
def leave (t : Thread) : Thread := { t with depth := t.depth - 1 }

theorem leave_enter {t u : Thread} (h : t.enter? = some u) : u.leave = t := by
  unfold enter? at h
  split at h
  · contradiction
  · cases h; rfl

theorem depth_le_of_enter {t u : Thread} (h : t.enter? = some u) : u.depth ≤ u.limit := by
  unfold enter? at h
  split at h
  · contradiction
  · next hlt => cases h; simp only; omega

theorem enter_eq_none_iff (t : Thread) : t.enter? = none ↔ t.limit ≤ t.depth := by
  unfold enter?
  split <;> simp_all

end Thread

end Resumable
