import Resumable.Arithmetic
import Resumable.Iteration

set_option autoImplicit false

/-!
# The interpreter

One resume of a frame by an assembled program.  Value stack, handlers and local variables live in
the frame, so suspending only records the resume point; the position of the next instruction and
the value that was sent in belong to the resume.

An exception goes to the innermost handler, with the stack cut down to what it was when the handler
was installed and the exception on top.  Without a handler the frame is finished, and the exception
records the frame and leaves it.
-/

namespace Resumable

/-- How a resume of a frame ended without raising. -/
inductive Suspension where
  /-- the frame is suspended and produced a value -/
  | yielded (v : Value)
  /-- the frame ran to completion -/
  | returned (v : Value)
  /-- the iterator that the frame delegates to ran out and returned a value -/
  | delegateExhausted (result : Value)
  deriving DecidableEq, Repr, Inhabited

/-- A resume in progress. -/
structure Activation where
  frame : Frame
  /-- the position of the next instruction -/
  counter : Nat
  /-- the value that was sent in, until an instruction receives it -/
  sent : Value
  deriving DecidableEq, Repr, Inhabited

/-- A step of a resume. -/
abbrev Exec : Type → Type := Run (Activation × World)

namespace Exec

variable {α : Type}

/-! ## Steps on the frame -/

/-- The state of the resume. -/
def activation : Exec Activation := fun s => .ok s.1 s

/-- Changes the frame. -/
def modifyFrame (edit : Frame → Frame) : Exec Unit := fun (a, w) =>
  .ok () ({ a with frame := edit a.frame }, w)

/-- Goes on at another position. -/
def goTo (position : Nat) : Exec Unit := fun (a, w) => .ok () ({ a with counter := position }, w)

/-- Pushes a value. -/
def push (v : Value) : Exec Unit := modifyFrame fun f => { f with stack := v :: f.stack }

/-- Pops the top value. -/
def pop : Exec Value := fun (a, w) =>
  match a.frame.stack with
  | [] => .error (.raised (.systemError "pop from an empty value stack")) (a, w)
  | v :: rest => .ok v ({ a with frame := { a.frame with stack := rest } }, w)

/-- The top value, which stays where it is. -/
def peek : Exec Value := fun (a, w) =>
  match a.frame.stack with
  | [] => .error (.raised (.systemError "empty value stack")) (a, w)
  | v :: _ => .ok v (a, w)

/-- Takes the value that was sent in. -/
def takeSent : Exec Value := fun (a, w) => .ok a.sent ({ a with sent := .none }, w)

/-- The position at a distance from the next instruction.  A distance that leads beyond every
position abandons the computation. -/
def target (offset : Int) : Exec Nat := do
  let position := ((← activation).counter : Int) + offset
  if position < 0 then Run.raise (.systemError "jump before the start of the bytecode")
  else if position ≤ Frame.greatestPosition then return position.toNat
  else Run.shared World.abort

/-- Jumps over a distance. -/
def jump (offset : Int) : Exec Unit := do goTo (← target offset)

/-- Forgets a value. -/
def release (e : Engine) (v : Value) : Exec Unit := Run.shared (e.release v)

/-- Carries out a step and then forgets a value, whichever way the step ends. -/
def owning (e : Engine) (v : Value) (m : Exec α) : Exec α := m.ensuring (release e v)

/-- Changes the frame, and forgets what it no longer holds. -/
def replace (e : Engine) (change : Frame → Frame × List Value) : Exec Unit := do
  let (frame, removed) := change (← activation).frame
  modifyFrame fun _ => frame
  Run.shared (e.releaseAll removed)

/-- Empties the value stack, the lowest value first. -/
def clearStack (e : Engine) : Exec Unit := do
  let values := (← activation).frame.above 0
  modifyFrame (·.truncate 0)
  Run.shared (e.releaseAll values)

/-! ## Instructions -/

/-- The refusal of an operation on two values, which are forgotten. -/
def refuse (e : Engine) (left right : Value) (message : String → String → String) : Exec α :=
  owning e left <| owning e right do
    let l ← Run.shared (World.typeName left)
    let r ← Run.shared (World.typeName right)
    Run.raise (.typeError (message l r))

/-- Pops two values and pushes the result of an operation on them. -/
def binary (e : Engine) (op : Value → Value → Except OperandFault Value)
    (message : String → String → String) : Exec Unit := do
  let right ← pop
  let left ← pop.onInterruption (release e right)
  match op left right with
  | .ok v => push v
  | .error .overflow => Run.raise (.withMessage .overflowError "integer overflow")
  | .error .unsupported => refuse e left right message

/-- The message for operands that an operation is not defined on. -/
def unsupported (op left right : String) : String :=
  "unsupported operand type(s) for " ++ op ++ ": '" ++ left ++ "' and '" ++ right ++ "'"

/-- The message for operands that cannot be compared. -/
def incomparable (left right : String) : String :=
  "'<' not supported between instances of '" ++ left ++ "' and '" ++ right ++ "'"

/-- Pushes a local variable. -/
def loadFast (p : Code.Program) (index : Nat) : Exec Unit := do
  match (← activation).frame.locals[index]? with
  | some v =>
      Run.shared (World.share v)
      push v
  | none =>
      Run.raise (.nameError
        ("local variable '" ++ p.variableName index ++ "' referenced before assignment"))

/-- Pops into a local variable; the variables up to it come into being as `none`.  An index that
the frame has no room for abandons the computation. -/
def storeFast (e : Engine) (index : Nat) : Exec Unit := do
  let v ← pop
  if Frame.hasRoomFor index then replace e (·.replaceLocal index v)
  else owning e v (Run.shared World.abort)

/-- Pushes the next item of the iterator on top, or pops the iterator and jumps. -/
def forIter (e : Engine) (offset : Int) : Exec Unit := do
  let iterator ← peek
  Run.shared (World.share iterator)
  owning e iterator do
    match ← Run.shared (e.nextItem iterator) with
    | some item => push item
    | none => do
        release e (← pop)
        jump offset

/-- Appends the value on top to the list below it. -/
def listAppend (e : Engine) : Exec Unit := do
  let item ← pop
  let target ← pop.onInterruption (release e item)
  match target with
  | .list r =>
      modify fun (a, w) => (a, w.setItems r (w.items r ++ [item]))
      release e target
  | other =>
      owning e item <| owning e other do
        let name ← Run.shared (World.typeName other)
        Run.raise (.attributeError name "append")

/-- The iterator to delegate to: the current one, or a new one over the value on top.  The frame
and the caller each own it. -/
def delegate (e : Engine) : Exec Value := do
  match (← activation).frame.delegate with
  | some inner =>
      Run.shared (World.share inner)
      return inner
  | none =>
      let iterable ← pop
      let inner ← owning e iterable (Run.shared (World.getIter iterable))
      modifyFrame fun f => { f with delegate := some inner }
      Run.shared (World.share inner)
      return inner

/-- One step of a delegation.  The resume point stays at this instruction until the iterator runs
out; an exception of the iterator ends the delegation. -/
def yieldFrom (e : Engine) : Exec Suspension := do
  let inner ← delegate e
  owning e inner do
    let a ← activation
    modifyFrame fun f => { f with position := (a.counter : Int) - 1 }
    let sent ← takeSent
    match ← Run.attempt (Run.shared (e.sendInto inner sent)) with
    | .ok (.item v) => return .yielded v
    | .ok (.finished result) => return .delegateExhausted result
    | .error exception =>
        replace e Frame.removeDelegate
        Run.raise exception

/-- Ends the frame with a value. -/
def finish (e : Engine) (v : Value) : Exec Suspension := do
  modifyFrame fun f => { f.markFinished with blocks := [] }
  (clearStack e).onInterruption (release e v)
  return .returned v

/-- Carries out one instruction; the counter is already past it. -/
def execute (e : Engine) (p : Code.Program) (closure : Value) :
    Code.Instruction → Exec (Option Suspension)
  | .loadConst index => do
      match p.constants[index]? with
      | some c => push c.toValue
      | none => Run.raise (.systemError "constant index out of range")
      return none
  | .loadFast index => do
      loadFast p index
      return none
  | .storeFast index => do
      storeFast e index
      return none
  | .loadClosure => do
      Run.shared (World.share closure)
      push closure
      return none
  | .popTop => do
      release e (← pop)
      return none
  | .add => do
      binary e Value.add (unsupported "+")
      return none
  | .sub => do
      binary e Value.sub (unsupported "-")
      return none
  | .lessThan => do
      binary e Value.lessThan incomparable
      return none
  | .jump offset => do
      jump offset
      return none
  | .jumpIfFalse offset => do
      let v ← pop
      let truthy := (← get).2.isTruthy v
      release e v
      if truthy then return none
      jump offset
      return none
  | .getIter => do
      let iterable ← pop
      owning e iterable do
        push (← Run.shared (World.getIter iterable))
      return none
  | .forIter offset => do
      forIter e offset
      return none
  | .listAppend => do
      listAppend e
      return none
  | .yieldValue => do
      let v ← pop
      let a ← activation
      modifyFrame fun f => { f with position := a.counter }
      return some (.yielded v)
  | .yieldFrom => some <$> yieldFrom e
  | .setupExcept offset => do
      let handler ← target offset
      modifyFrame fun f => { f with blocks := ⟨handler, f.depth⟩ :: f.blocks }
      return none
  | .popBlock => do
      modifyFrame fun f => { f with blocks := f.blocks.tail }
      return none
  | .jumpIfNotExcMatch kind offset => do
      let v ← peek
      if (v.asException.map (·.isCaughtBy kind)).getD false then return none
      jump offset
      return none
  | .raise => do
      let v ← pop
      Run.shared (e.raiseValue v)
  | .returnValue => do
      let v ← pop
      some <$> finish e v

/-! ## Runs -/

/-- Hands an exception to the innermost handler, or finishes the frame if there is none. -/
def unwind (e : Engine) (exception : Exception) : Exec Unit := do
  let a ← activation
  match a.frame.blocks with
  | block :: rest =>
      let removed := a.frame.above block.stackDepth
      modifyFrame fun f => { f.truncate block.stackDepth with blocks := rest }
      (Run.shared (e.releaseAll removed)).onInterruption (release e exception.toValue)
      push exception.toValue
      goTo block.handler
  | [] =>
      modifyFrame fun f => { f with position := (a.counter - 1 : Nat) }
      let code := (← get).2.code a.frame.code
      let entry := (← activation).frame.traceEntry code.name code.filename
      (clearStack e).onInterruption (release e exception.toValue)
      modifyFrame Frame.markFinished
      Run.raise (exception.pushEntry entry)

/-- Carries out instructions until the frame is suspended or finished.  Running past the last
instruction returns `none`. -/
def run (e : Engine) (p : Code.Program) (closure : Value) : Nat → Exec Suspension
  | 0 => throw .outOfFuel
  | n + 1 => do
      let a ← activation
      match p.instructions[a.counter]? with
      | none => finish e .none
      | some i =>
          goTo (a.counter + 1)
          match ← Run.attempt (execute e p closure i) with
          | .ok (some suspension) => return suspension
          | .ok none => run e p closure n
          | .error exception =>
              unwind e exception
              run e p closure n

/-- Whether the frame is suspended inside a delegation. -/
def isDelegating (p : Code.Program) (a : Activation) : Bool :=
  a.frame.delegate.isSome && p.instructions[a.counter]? == some .yieldFrom

/-- Produces the value of the expression that the frame was suspended in. -/
def pushResumeValue (p : Code.Program) : Exec Unit := do
  let a ← activation
  if a.counter = 0 || isDelegating p a then return
  match p.instructions[a.counter - 1]? with
  | some .yieldValue => push (← takeSent)
  | some .yieldFrom =>
      modifyFrame fun f => { f with delegationResult := none }
      push (a.frame.delegationResult.getD .none)
  | _ => return

/-- Goes on from where the frame is suspended, raising the given exception there first. -/
def resume (e : Engine) (p : Code.Program) (closure : Value) (pending : Option Exception) :
    Exec Suspension := do
  match pending with
  | some exception => unwind e exception
  | none => pushResumeValue p
  run e p closure e.fuel

end Exec

namespace Code.Program

/-- Resumes a frame.  A value that was sent in and that nothing received is forgotten in the end. -/
def resume (p : Program) (e : Engine) (closure : Value) (pending : Option Exception) :
    Run (Frame × World) Suspension := fun (f, w) =>
  if f.position < 0 then
    Run.ensuring (Run.raise (.systemError "cannot resume a finished frame"))
      (Run.shared (e.releasePending pending)) (f, w)
  else
    let a : Activation := ⟨{ f with input := none }, f.position.toNat, f.input.getD .none⟩
    let m := (Exec.resume e p closure pending).ensuring do Exec.release e (← Exec.takeSent)
    match m (a, w) with
    | .ok suspension (a, w) => .ok suspension (a.frame, w)
    | .error reason (a, w) => .error reason (a.frame, w)

end Code.Program

end Resumable
