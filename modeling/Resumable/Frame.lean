import Resumable.Value

set_option autoImplicit false

/-!
# Frames

The suspended state of a generator body.  The resume point is a whole number with two marks: `0`
for a frame that has not started and `-1` for one that has finished.  Every other position is read
by the code that owns the frame.  Positions fill a signed word of 64 bits, and nothing comes after
the greatest of them.

The value stack is listed from the top, so that pushing and popping work at the front; the blocks
are listed innermost first.
-/

namespace Resumable

/-- An active exception handler: where to go on, and how deep the value stack was when the handler
was installed. -/
structure HandlerBlock where
  handler : Nat
  stackDepth : Nat
  deriving DecidableEq, Repr, Inhabited

/-- The state of one run of a generator body. -/
structure Frame where
  code : CodeRef
  /-- the resume point -/
  position : Int
  locals : List Value
  /-- the value stack, the top first -/
  stack : List Value
  /-- the active handlers, the innermost first -/
  blocks : List HandlerBlock
  /-- the iterator that the body delegates to -/
  delegate : Option Value
  /-- an exception to raise at the resume point -/
  pending : Option Exception
  /-- the value sent in for the next resume -/
  input : Option Value
  /-- the value that a finished delegation returned -/
  delegationResult : Option Value
  deriving DecidableEq, Repr, Inhabited

namespace Frame

/-- The resume point of a frame that has not run. -/
def notStarted : Int := 0

/-- The resume point of a frame that has returned or raised. -/
def finished : Int := -1

/-- The greatest resume point. -/
def greatestPosition : Int := Int64.maxValue.toInt

/-- How many local variables are more than a frame has room for. -/
def localCapacity : Nat := 1 <<< 58

/-- A frame for the first run of a body. -/
def new (code : CodeRef) (args : List Value) : Frame where
  code := code
  position := notStarted
  locals := args
  stack := []
  blocks := []
  delegate := none
  pending := none
  input := none
  delegationResult := none

/-- Whether the resume point has moved since the frame was made. -/
def isStarted (f : Frame) : Bool := f.position != notStarted

/-- Whether the frame has returned or raised. -/
def isFinished (f : Frame) : Bool := f.position == finished

/-- The frame with its resume point at the end. -/
def markFinished (f : Frame) : Frame := { f with position := finished }

/-- The place that an exception escaping from the frame records. -/
def traceEntry (f : Frame) (name filename : String) : TraceEntry :=
  ⟨name, filename, f.position.toNat⟩

/-- Whether there is a position after the resume point. -/
def hasNext (f : Frame) : Bool := f.position < greatestPosition

/-- Whether a frame has room for a local variable of the given index. -/
def hasRoomFor (index : Nat) : Bool := index + 1 < localCapacity

/-- The frame one step further. -/
def stepOn (f : Frame) : Frame := { f with position := f.position + 1 }

/-- The frame after its delegate ran out: past the delegating instruction, with the result kept
for it. -/
def finishDelegation (f : Frame) (result : Value) : Frame :=
  { f.stepOn with delegate := none, delegationResult := some result }

/-- The number of values on the stack. -/
def depth (f : Frame) : Nat := f.stack.length

/-- The values of the stack above the given depth, the lowest of them first. -/
def above (f : Frame) (depth : Nat) : List Value := (f.stack.take (f.depth - depth)).reverse

/-- The frame with its stack cut down to the given depth. -/
def truncate (f : Frame) (depth : Nat) : Frame := { f with stack := f.stack.drop (f.depth - depth) }

/-! ## Replacing what a frame holds

Each change gives the new frame and the values that it no longer holds. -/

/-- The frame with other local variables. -/
def replaceLocals (f : Frame) (locals : List Value) : Frame × List Value :=
  ({ f with locals := locals }, f.locals)

/-- The frame with one local variable set; the variables up to it come into being as `none`. -/
def replaceLocal (f : Frame) (index : Nat) (v : Value) : Frame × List Value :=
  let grown := f.locals ++ List.replicate (index + 1 - f.locals.length) .none
  ({ f with locals := grown.set index v }, f.locals[index]?.toList)

/-- The frame with another value stack, given from the top. -/
def replaceStack (f : Frame) (stack : List Value) : Frame × List Value :=
  ({ f with stack := stack }, f.stack.reverse)

/-- The frame with another delegate. -/
def replaceDelegate (f : Frame) (v : Value) : Frame × List Value :=
  ({ f with delegate := some v }, f.delegate.toList)

/-- The frame without a delegate. -/
def removeDelegate (f : Frame) : Frame × List Value :=
  ({ f with delegate := none }, f.delegate.toList)

/-- The frame with an exception to raise at the resume point. -/
def replacePending (f : Frame) (e : Exception) : Frame × List Value :=
  ({ f with pending := some e }, (f.pending.map (·.args)).getD [])

/-- The frame with a value sent in. -/
def replaceInput (f : Frame) (v : Value) : Frame × List Value :=
  ({ f with input := some v }, f.input.toList)

/-- The frame with the value that a finished delegation returned. -/
def replaceDelegationResult (f : Frame) (v : Value) : Frame × List Value :=
  ({ f with delegationResult := some v }, f.delegationResult.toList)

/-! ## Everything a frame holds -/

/-- Every value that the frame owns, in the order in which they are released. -/
def owned (f : Frame) : List Value :=
  f.locals ++ f.stack.reverse ++ f.delegate.toList ++ (f.pending.map (·.args)).getD []
    ++ f.input.toList ++ f.delegationResult.toList

theorem isStarted_new (code : CodeRef) (args : List Value) : (new code args).isStarted = false :=
  rfl

theorem isFinished_markFinished (f : Frame) : f.markFinished.isFinished = true := rfl

theorem position_stepOn_le {f : Frame} (h : f.hasNext = true) :
    f.stepOn.position ≤ greatestPosition := by
  have h : f.position < greatestPosition := by simpa [hasNext] using h
  exact Int.add_one_le_of_lt h

theorem finishDelegation_eq (f : Frame) (result : Value) :
    f.finishDelegation result = (f.removeDelegate.1.stepOn.replaceDelegationResult result).1 := rfl

theorem delegate_finishDelegation (f : Frame) (result : Value) :
    (f.finishDelegation result).delegate = none := rfl

theorem above_truncate (f : Frame) (depth : Nat) :
    (f.above depth).reverse ++ (f.truncate depth).stack = f.stack := by
  simp [above, truncate]

end Frame

end Resumable
