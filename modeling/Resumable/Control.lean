import Resumable.Resumption

set_option autoImplicit false

/-!
# Throwing into a generator and closing it

An exception thrown into a generator that delegates goes to the delegate first.  A delegate that is
a generator receives the exception; what it does with it decides how the delegating body goes on.
Another delegate is closed, and the exception is raised in the delegating body.  A request to finish
closes the delegate in either case.

Closing is throwing such a request and expecting the body to finish: to yield instead is an error.
-/

namespace Resumable

namespace Engine

/-- The traceback that the last argument of a throw is, if it is present at all. -/
def tracebackOf : Option Value → Except Exception (Option Traceback)
  | none => .ok none
  | some .none => .ok none
  | some (.traceback t) => .ok (some t)
  | some _ => .error (.typeError "throw() third argument must be a traceback object")

/-- Makes the exception that is thrown and raises it in the body of a generator.  The value is
forgotten in the end; the type stays with the caller. -/
def raiseIntoFrame (e : Engine) (g : GeneratorRef) (r : FrameRef) (type : Value)
    (value : Option Value) (traceback : Option Traceback) : Run World Value :=
  Run.ensuring
    (do
      let exception ← World.normalize type value
      e.inject g r
        (match traceback with
          | none => exception
          | some t => exception.setTraceback t))
    (e.releaseAll value.toList)

/-- Gives up a delegate that failed to close: it left no result, and its error is raised. -/
def abandonDelegate {α : Type} (e : Engine) (r : FrameRef) (exception : Exception) :
    Run World α := do
  (e.finishDelegation r .none).onInterruption (e.releaseException exception)
  Run.raise exception

/-- Throws into a generator that delegates to another one.  The arguments of the throw stay with
the caller. -/
def throwIntoDelegate (e : Engine) (g : GeneratorRef) (r : FrameRef) (delegate : GeneratorRef)
    (thrown : Throw) : Run World Value := do
  World.shareAll (thrown.type :: thrown.value.toList)
  match ← Run.attempt (World.whileRunning g (e.throw delegate thrown)) with
  | .ok v => return v
  | .error exception =>
      if exception.kind = .stopIteration then
        Run.ensuring
          (do
            World.share exception.stopValue
            e.finishDelegation r exception.stopValue
            e.perform (.resume g .none))
          (e.releaseException exception)
      else e.inject g r exception

/-- How closing an iterator for a throw ended: it raised an exception that counts, or left a value
or an exception that does not. -/
def closeForThrow (e : Engine) (g : GeneratorRef) (delegate : IteratorRef) :
    Run World (Except Exception (List Value)) := do
  match ← World.whileRunning g (World.withIterator delegate (Iterator.close? e)) with
  | none => return .ok []
  | some (.ok v) => return .ok [v]
  | some (.error exception) =>
      if exception.isCaughtBy .attributeError then return .ok exception.args
      else return .error exception

/-- Throws into a generator that is neither running nor finished.  The type stays with the caller.
Where the exception is raised in the body, the value goes first and the frame last; otherwise the
value is forgotten after the frame. -/
def throwInto (e : Engine) (g : GeneratorRef) (r : FrameRef) (type : Value)
    (value : Option Value) (traceback : Option Traceback) : Run World Value := do
  let frame ← (World.readFrame r).onInterruption (e.releaseAll (.frame r :: value.toList))
  let raiseHere (held : List Value) : Run World Value :=
    Run.ensuring (e.raiseIntoFrame g r type value traceback) (e.releaseAll (held ++ [.frame r]))
  match frame.delegate with
  | none => raiseHere []
  | some inner =>
      World.share inner
      let forget := e.releaseAll (inner :: .frame r :: value.toList)
      if type.exceptionKind = some .generatorExit then
        match ← (Run.attempt (World.whileRunning g (e.closeIter inner))).onInterruption forget with
        | .ok v => raiseHere [v, inner]
        | .error exception =>
            Run.ensuring (e.abandonDelegate r exception) forget
      else
        match inner with
        | .generator delegate =>
            Run.ensuring
              (e.throwIntoDelegate g r delegate ⟨type, value, traceback.map .traceback⟩) forget
        | .iterator delegate =>
            match ← (e.closeForThrow g delegate).onInterruption forget with
            | .ok closed => raiseHere (closed ++ [inner])
            | .error exception => Run.ensuring (e.inject g r exception) forget
        | _ => raiseHere [inner]

/-- Answers the request to throw into a generator. -/
def answerThrow (e : Engine) (g : GeneratorRef) (thrown : Throw) : Run World Value :=
  e.owning thrown.type do
    let refuse (exception : Exception) : Run World Value :=
      Run.ensuring (Run.raise exception)
        (e.releaseAll (thrown.traceback.toList ++ thrown.value.toList))
    match tracebackOf thrown.traceback with
    | .error exception => refuse exception
    | .ok traceback =>
        let generator := (← get).generator g
        if generator.running then refuse .alreadyExecuting
        else
          match generator.frame with
          | none => refuse .stopIteration
          | some r =>
              World.share (.frame r)
              e.throwInto g r thrown.type thrown.value traceback

/-- Closes the delegate of a generator, if it has one.  A delegate that fails to close is given up
with its error; one that merely ends is not in the way. -/
def closeDelegate (e : Engine) (g : GeneratorRef) (r : FrameRef) : Run World Unit := do
  let frame ← World.readFrame r
  match frame.delegate with
  | none => return
  | some inner =>
      World.share inner
      e.owning inner do
        match ← Run.attempt (World.whileRunning g (e.closeIter inner)) with
        | .ok v => e.owning v (e.dropDelegate r)
        | .error exception =>
            if exception.isCaughtBy .stopIteration || exception.isCaughtBy .generatorExit then
              Run.ensuring (e.dropDelegate r) (e.releaseException exception)
            else e.abandonDelegate r exception

/-- Raises the request to finish in a generator and expects it to finish. -/
def closeWith (e : Engine) (g : GeneratorRef) (r : FrameRef) : Run World Value := do
  e.closeDelegate g r
  e.leavePending r .generatorExit
  match ← Run.attempt (e.perform (.resume g .none)) with
  | .ok v => e.owning v (Run.raise (.runtimeError "generator ignored GeneratorExit"))
  | .error exception =>
      if exception.isCaughtBy .stopIteration || exception.isCaughtBy .generatorExit then
        e.releaseException exception
        return .none
      else Run.raise exception

/-- Answers the request to close a generator. -/
def answerClose (e : Engine) (g : GeneratorRef) : Run World Value := do
  let generator := (← get).generator g
  if generator.running then Run.raise .alreadyExecuting
  else
    match generator.frame with
    | none => return .none
    | some r =>
        World.share (.frame r)
        e.owning (.frame r) (e.closeWith g r)

end Engine

end Resumable
