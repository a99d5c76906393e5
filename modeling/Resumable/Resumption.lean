import Resumable.Performance

set_option autoImplicit false

/-!
# Resuming a generator

A resume takes a level of the thread, raises what is pending, and runs the body with the frame out
of its cell.  A generator whose body returns or raises lets go of its frame, and from then on every
resume is the end of an iteration.  When the delegate of the body ran out, the result is handed to
the frame and the generator is resumed again, one level deeper.

A resume owns the frame while it lasts.  It gives the level back before it forgets the value that
was sent, and forgets the frame last.
-/

namespace Resumable

namespace Exception

/-- The refusal to resume a generator that is running. -/
def alreadyExecuting : Exception := valueError "generator already executing"

end Exception

namespace Engine

/-- Lets go of the frame of a generator, which is finished unless it is in use. -/
def terminate (e : Engine) (g : GeneratorRef) : Run World Unit := do
  let generator := (← get).generator g
  match generator.frame with
  | none => return
  | some r =>
      modify (·.setGenerator g { generator with frame := none })
      e.owning (.frame r) do
        if ((← get).frame? r).isSome then
          World.withFrame r do
            modify fun (f, w) => (f.markFinished, w)
            e.replace Frame.removeDelegate

/-- Runs the body of a generator on its frame, which is out of its cell meanwhile. -/
def runBody (e : Engine) (g : GeneratorRef) (r : FrameRef) (pending : Option Exception) :
    Run World Suspension := do
  let w ← get
  let generator := w.generator g
  World.whileRunning g
    (World.withFrame r ((w.code generator.code).resume e generator.closure pending))

/-- Takes the exception that is to be raised at the resume point of a frame. -/
def takePending (r : FrameRef) : Run World (Option Exception) :=
  World.withFrame r fun (f, w) => .ok f.pending ({ f with pending := none }, w)

/-- Gives a frame a copy of the value that is sent, unless it is `none`. -/
def handOver (e : Engine) (r : FrameRef) (input : Value) : Run World Unit :=
  if input.isNone then pure ()
  else do
    World.share input
    e.put r input Frame.replaceInput

/-- Resumes the frame of a generator; without a result the delegate ran out, and the frame has been
told so.  The value that is sent stays with the caller, the frame gets it as a copy. -/
def resumeFrame (e : Engine) (g : GeneratorRef) (r : FrameRef) (input : Value) :
    Run World (Option Value) := do
  let pending ← takePending r
  if (((← get).frame? r).map Frame.isFinished).getD false then
    Run.ensuring (do e.terminate g; Run.raise .stopIteration) (e.releasePending pending)
  else
    (e.handOver r input).onInterruption (e.releasePending pending)
    match ← Run.attempt (e.runBody g r pending) with
    | .ok (.yielded v) => return some v
    | .ok (.returned v) =>
        (e.terminate g).onInterruption (e.release v)
        Run.raise (.stopIterationWith v)
    | .ok (.delegateExhausted result) =>
        e.finishDelegation r result
        return none
    | .error exception =>
        (e.terminate g).onInterruption (e.releaseException exception)
        Run.raise exception

/-- Resumes a generator, with a value to send unless it is `none`. -/
def resume (e : Engine) (g : GeneratorRef) (input : Value) : Run World Value := do
  let generator := (← get).generator g
  if generator.running then e.owning input (Run.raise .alreadyExecuting)
  else
    match generator.frame with
    | none => e.owning input (Run.raise .stopIteration)
    | some r =>
        World.share (.frame r)
        e.owning (.frame r) do
          World.enter.onInterruption (e.release input)
          let result ← (e.resumeFrame g r input).onInterruption do
            World.leave
            e.release input
          match result with
          | some v =>
              World.leave
              e.release input
              return v
          | none => Run.ensuring (e.perform (.resume g input)) World.leave

/-- Resumes a generator with an exception raised at its resume point. -/
def inject (e : Engine) (g : GeneratorRef) (r : FrameRef) (exception : Exception) :
    Run World Value := do
  e.withFrameFor exception.args r do
    (e.replace Frame.removeDelegate).onInterruption (Run.shared (e.releaseException exception))
    e.replace (·.replacePending exception)
  e.perform (.resume g .none)

end Engine

end Resumable
