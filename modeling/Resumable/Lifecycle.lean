import Resumable.Access

set_option autoImplicit false

/-!
# The life of a generator, and the operations on it

The state of a generator is read off its running mark and its frame.  While it runs, neither its
frame nor its delegate can be observed.

The operations are what code that runs, or a caller from outside, does to a generator.  Apart from
the checks made before anything happens they are requests to the engine.
-/

namespace Resumable

/-- Where a generator is in its life. -/
inductive GeneratorState where
  | created
  | suspended
  /-- suspended inside a delegation -/
  | delegating
  | running
  | finished
  deriving DecidableEq, Repr, Inhabited

namespace GeneratorState

/-- The name of the state. -/
def name : GeneratorState → String
  | created => "Created"
  | suspended => "Suspended"
  | delegating => "Delegating"
  | running => "Running"
  | finished => "Finished"

end GeneratorState

namespace World

/-- Where a generator is in its life. -/
def stateOf (w : World) (g : GeneratorRef) : GeneratorState :=
  if (w.generator g).running then .running
  else
    match (w.generator g).frame with
    | none => .finished
    | some r =>
        match w.frame? r with
        | none => .running
        | some f =>
            if f.isFinished then .finished
            else if f.delegate.isSome then .delegating
            else if f.isStarted then .suspended
            else .created

/-- The iterator that a generator delegates to, unless its frame is in use. -/
def delegateOf (w : World) (g : GeneratorRef) : Option Value := do
  let r ← (w.generator g).frame
  let f ← w.frame? r
  f.delegate

/-- The name of a generator. -/
def generatorName (w : World) (g : GeneratorRef) : String := (w.code (w.generator g).code).name

/-- Whether a generator has never been resumed; this cannot be told while its frame is in use. -/
def isJustStarted (w : World) (r : FrameRef) : Bool :=
  match w.frame? r with
  | none => false
  | some f => !f.isStarted

/-- An attribute of a generator. -/
def getAttribute (w : World) (g : GeneratorRef) (name : String) : Except Exception Value :=
  if name = "gi_frame" then .ok (((w.generator g).frame.map .frame).getD .none)
  else if name = "gi_code" then .ok (.code (w.generator g).code)
  else if name = "gi_running" then .ok (.bool (w.generator g).running)
  else if name = "gi_yieldfrom" then .ok ((w.delegateOf g).getD .none)
  else if name = "__name__" ∨ name = "__qualname__" then .ok (.str (w.generatorName g))
  else .error (.attributeError ValueType.generator.name name)

end World

namespace Engine

/-- Resumes a generator. -/
def next (e : Engine) (g : GeneratorRef) : Run World Value := e.perform (.resume g .none)

/-- Resumes a generator and tells the end of the iteration apart from other exceptions. -/
def nextOrEnd (e : Engine) (g : GeneratorRef) : Run World (Option Value) := do
  match ← Run.attempt (e.next g) with
  | .ok v => return some v
  | .error exception =>
      if exception.kind = .stopIteration then
        e.releaseException exception
        return none
      else Run.raise exception

/-- Resumes a generator with a value for the yield that it is suspended at. -/
def send (e : Engine) (g : GeneratorRef) (v : Value) : Run World Value := do
  let w ← get
  match (w.generator g).frame with
  | none => e.owning v (Run.raise .stopIteration)
  | some r =>
      if w.isJustStarted r && !v.isNone then
        e.owning v
          (Run.raise (.typeError "can't send non-None value to a just-started generator"))
      else e.perform (.resume g v)

/-- Raises an exception at the place where a generator is suspended. -/
def throw (e : Engine) (g : GeneratorRef) (thrown : Throw) : Run World Value :=
  e.perform (.throw g thrown)

/-- Asks a generator to finish. -/
def close (e : Engine) (g : GeneratorRef) : Run World Value := e.perform (.close g)

end Engine

end Resumable
