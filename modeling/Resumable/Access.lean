import Resumable.Ownership

set_option autoImplicit false

/-!
# Access to objects and to the thread

An object that is worked on is taken out of its cell and put back when the work ends.  Asking for
an object that is out abandons the computation: the two users would otherwise see each other's
half-done work.
-/

namespace Resumable

namespace World

variable {α : Type}

/-- Abandons the computation. -/
def abort : Run World α := fun w => .error .aborted { w with unwinding := true }

/-- Takes a frame out of its cell for the time of a computation. -/
def withFrame (r : FrameRef) (m : Run (Frame × World) α) : Run World α := fun w =>
  match w.frame? r with
  | none => abort w
  | some f =>
      Run.withPrivate f m (fun f => modify (·.setFrame r (some f))) (w.setFrame r none)

/-- A frame that is in its cell. -/
def readFrame (r : FrameRef) : Run World Frame := fun w =>
  match w.frame? r with
  | none => abort w
  | some f => .ok f w

/-- An iterator that is in its cell. -/
def readIterator (r : IteratorRef) : Run World Iterator := fun w =>
  match w.iterator? r with
  | none => abort w
  | some i => .ok i w

/-- Moves the resume point of a frame that is out of its cell one step on.  Where no position
follows, the computation is abandoned. -/
def stepOn : Run (Frame × World) Unit := do
  if (← get).1.hasNext then modify fun (f, w) => (f.stepOn, w)
  else Run.shared abort

/-- Takes an iterator out of its cell for the time of a computation. -/
def withIterator (r : IteratorRef) (m : Run (Iterator × World) α) : Run World α := fun w =>
  match w.iterator? r with
  | none => abort w
  | some i =>
      Run.withPrivate i m (fun i => modify (·.setIterator r (some i))) (w.setIterator r none)

/-- Marks a generator as running or not. -/
def setRunning (w : World) (g : GeneratorRef) (running : Bool) : World :=
  w.setGenerator g { w.generator g with running := running }

/-- Marks a generator as running for the time of a computation. -/
def whileRunning (g : GeneratorRef) (m : Run World α) : Run World α := do
  modify (·.setRunning g true)
  m.ensuring (modify (·.setRunning g false))

/-- Takes a level of the thread. -/
def enter : Run World Unit := fun w =>
  match w.thread.enter? with
  | none => .error (.raised .recursionError) w
  | some thread => .ok () { w with thread := thread }

/-- Gives a level of the thread back. -/
def leave : Run World Unit := modify fun w => { w with thread := w.thread.leave }

/-- The name of the type of a value. -/
def typeName (v : Value) : Run World String := fun w =>
  match w.typeName? v with
  | some name => .ok name w
  | none => abort w

/-- The message that a failure to make an exception carries. -/
def faultMessage : Exception.Fault → Run World String
  | .separateValue => pure "instance exception may not have a separate value"
  | .notAnException type => do
      let name ← typeName type
      return "exceptions must be classes or instances deriving from BaseException, not " ++ name

/-- The exception that a type and a value stand for, with owners of its own; a failure is raised as
a type error. -/
def normalize (type : Value) (value : Option Value) : Run World Exception := do
  match Exception.normalize type value with
  | .ok e =>
      shareAll e.args
      return e
  | .error fault =>
      let message ← faultMessage fault
      Run.raise (.typeError message)

/-- The exception that a value stands for, or the error that it stands for none. -/
def exceptionOf (v : Value) : Run World Exception := do
  match ← Run.attempt (normalize v none) with
  | .ok e => return e
  | .error e => return e

end World

namespace Engine

variable {α : Type}

/-- Changes a frame that is out of its cell, and forgets what it no longer holds. -/
def replace (e : Engine) (change : Frame → Frame × List Value) : Run (Frame × World) Unit := do
  let (f, w) ← get
  let (f, removed) := change f
  set (f, w)
  Run.shared (e.releaseAll removed)

/-- Takes a frame out of its cell for the time of a computation that puts a value into it; a value
that does not get that far is forgotten. -/
def withFrameFor (e : Engine) (v : List Value) (r : FrameRef) (m : Run (Frame × World) α) :
    Run World α := do
  let _ ← (World.readFrame r).onInterruption (e.releaseAll v)
  World.withFrame r m

/-- Puts a value into a frame in place of what is there. -/
def put (e : Engine) (r : FrameRef) (v : Value) (change : Frame → Value → Frame × List Value) :
    Run World Unit :=
  e.withFrameFor [v] r (e.replace (change · v))

/-- Takes the delegate of a frame away. -/
def dropDelegate (e : Engine) (r : FrameRef) : Run World Unit :=
  World.withFrame r (e.replace Frame.removeDelegate)

/-- Leaves an exception in a frame, to be raised when the frame is resumed. -/
def leavePending (e : Engine) (r : FrameRef) (exception : Exception) : Run World Unit :=
  e.withFrameFor exception.args r (e.replace (·.replacePending exception))

/-- Tells a frame that its delegate ran out: the delegate goes, the resume point moves on, and then
the result is put in place. -/
def finishDelegation (e : Engine) (r : FrameRef) (result : Value) : Run World Unit :=
  e.withFrameFor [result] r do
    Run.onInterruption
      (do
        e.replace Frame.removeDelegate
        World.stepOn)
      (Run.shared (e.release result))
    e.replace (·.replaceDelegationResult result)

end Engine

end Resumable
