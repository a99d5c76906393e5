import Resumable.Control

set_option autoImplicit false

/-!
# Disposing of objects

An object that has lost its last owner forgets what it holds.  A generator that is still suspended
is closed first.  Nothing that happens while it is closed reaches the one who let go of it: an
exception becomes one line on the diagnostic stream, whether or not that can be written, and an
abandoned computation leaves no trace.
-/

namespace Resumable

namespace Engine

/-- The text of a value that is part of a diagnostic.  A value in use has none. -/
def describe (e : Engine) (exception : Exception) (g : GeneratorRef) : Run World String := do
  let w ← get
  let forms := w.forms exception.args
  if forms.any Form.isInUse then
    Run.ensuring World.abort (e.releaseException exception)
  else
    return "Exception " ++ exception.kind.name ++ ": " ++ (Form.message? forms).getD ""
      ++ " in " ++ w.repr (.generator g)

/-- Reports the exception that finalizing a generator ended with. -/
def report (e : Engine) (exception : Exception) (g : GeneratorRef) : Run World Unit := do
  let line ← e.describe exception g
  modify fun w => (w.writeLine line).2
  e.releaseException exception

/-- Whether a generator with the given frame has to be closed before it goes away. -/
def needsClosing (w : World) (r : FrameRef) : Bool :=
  !w.unwinding && ((w.frame? r).map (!·.isFinished)).getD false

/-- Closes a generator that is about to go away while it is suspended. -/
def finalize (e : Engine) (g : GeneratorRef) : Run World Unit := do
  match ((← get).generator g).frame with
  | none => return
  | some r =>
      World.share (.frame r)
      e.owning (.frame r) do
        if needsClosing (← get) r then
          match ← Run.contain (e.closeWith g r) with
          | .result v => e.release v
          | .raised exception => e.report exception g
          | .aborted => modify fun w => { w with unwinding := false }

/-- Disposes of an object that has lost its last owner. -/
def reclaim (e : Engine) (o : Object) : Run World Unit := do
  match o with
  | .list r =>
      let items := (← get).items r
      modify (·.setItems r [])
      e.releaseAll items
  | .iterator r =>
      let iterator := (← get).iterator? r
      modify (·.setIterator r none)
      match iterator with
      | some (.list source _) => e.release (.list source)
      | _ => return
  | .frame r =>
      let frame := (← get).frame? r
      modify (·.setFrame r none)
      e.releaseAll ((frame.map Frame.owned).getD [])
  | .generator g =>
      (e.finalize g).ensuring do
        let generator := (← get).generator g
        modify (·.setGenerator g { generator with frame := none, closure := .none })
        e.releaseAll ((generator.frame.map .frame).toList ++ [generator.closure])

end Engine

end Resumable
