import Resumable.Interpreter

set_option autoImplicit false

/-!
# Performing scripted bodies

One resume of a frame by a scripted body.  The resume point selects an entry, and the actions of
that entry are carried out until one of them ends the run; if none does, the frame steps on and
yields `none`.  An exception raised at the resume point is first treated by the script's rule.
-/

namespace Resumable

/-- A resume of a scripted body in progress: the frame, and what this resume's calls gave. -/
structure Performance where
  frame : Frame
  results : List Value
  deriving DecidableEq, Repr, Inhabited

namespace Performance

/-- A step of a resume of a scripted body. -/
abbrev Step : Type → Type := Run (Performance × World)

/-- The frame. -/
def frameOf : Step Frame := fun s => .ok s.1.frame s

/-- Changes the frame. -/
def modifyFrame (edit : Frame → Frame) : Step Unit := fun (p, w) =>
  .ok () ({ p with frame := edit p.frame }, w)

/-- Changes the frame, and forgets what it no longer holds. -/
def replace (e : Engine) (change : Frame → Frame × List Value) : Step Unit := do
  let (frame, removed) := change (← frameOf)
  modifyFrame fun _ => frame
  Run.shared (e.releaseAll removed)

/-- Moves the resume point one step on, holding values that are forgotten if that fails.  Where no
position follows, the computation is abandoned. -/
def stepOn (e : Engine) (held : List Value) : Step Unit := do
  if (← frameOf).hasNext then modifyFrame Frame.stepOn
  else (Run.shared World.abort).onInterruption (Run.shared (e.releaseAll held))

/-- Carries out a step and then forgets values, whichever way the step ends. -/
def owning {α : Type} (e : Engine) (vs : List Value) (m : Step α) : Step α :=
  m.ensuring (Run.shared (e.releaseAll vs))

/-- What an expression reads from the run. -/
def field (closure : Value) : FieldReader Performance
  | .input => do
      let v := (← frameOf).input.getD .none
      modifyFrame fun f => { f with input := none }
      return v
  | .result => do
      let v := (← frameOf).delegationResult.getD .none
      modifyFrame fun f => { f with delegationResult := none }
      return v
  | .closure => do
      Run.shared (World.share closure)
      return closure
  | .callResults => do
      let results := (← get).1.results
      Run.shared (World.shareAll results)
      Run.shared (World.makeList results)
  | .position => return .int (Int64.ofInt (← frameOf).position)
  | .localVariable index => do
      let v := ((← frameOf).locals[index]?).getD .none
      Run.shared (World.share v)
      return v

/-- Ends the run with a value, leaving the frame marked as finished. -/
def finishWith (ending : Value → Suspension) (v : Value) : Step (Option Suspension) := do
  modifyFrame Frame.markFinished
  return some (ending v)

/-- The iterator that the body delegates to, made from the first local variable at first.  The
frame and the caller each own it. -/
def delegateOf : Step Value := do
  let f ← frameOf
  match f.delegate with
  | some inner =>
      Run.shared (World.share inner)
      return inner
  | none =>
      let inner ← Run.shared (World.getIter (f.locals.head?.getD .none))
      modifyFrame fun f => { f with delegate := some inner }
      Run.shared (World.share inner)
      return inner

/-- Sends a value to the target of a delegation; `none` is the end of its iteration. -/
def sendTo (e : Engine) (inner v : Value) : Run World (Option Value) :=
  match inner with
  | .generator g => some <$> e.send g v
  | .iterator r => e.sendToIterator r v
  | _ => e.owning v (Run.raise (.typeError "not an iterator"))

/-- One step of delegation. -/
def delegate (e : Engine) : Step Suspension := do
  let inner ← delegateOf
  owning e [inner] do
    let f ← frameOf
    modifyFrame fun f => { f with input := none }
    match ← Run.attempt (Run.shared (sendTo e inner (f.input.getD .none))) with
    | .ok (some v) => return .yielded v
    | .ok none => return .delegateExhausted .none
    | .error exception =>
        if exception.kind = .stopIteration then
          return .delegateExhausted (← Run.shared (e.takeStopValue exception))
        replace e Frame.removeDelegate
        modifyFrame Frame.markFinished
        Run.raise exception

/-- Carries out one action; a result ends the run. -/
def act (e : Engine) (closure : Value) : Action → Step (Option Suspension)
  | .moveTo position => do
      modifyFrame fun f => { f with position := position }
      return none
  | .finish => do
      modifyFrame Frame.markFinished
      return none
  | .setLocal index x => do
      let v ← x.eval (field closure)
      if Frame.hasRoomFor index then replace e (·.replaceLocal index v)
      else owning e [v] (Run.shared World.abort)
      return none
  | .push x => do
      let v ← x.eval (field closure)
      modifyFrame fun f => { f with stack := v :: f.stack }
      return none
  | .setDelegate x => do
      let v ← x.eval (field closure)
      replace e (·.replaceDelegate v)
      return none
  | .clearDelegate => do
      replace e Frame.removeDelegate
      return none
  | .setPending x => do
      let v ← x.eval (field closure)
      owning e [v] do
        let exception ← Run.shared (World.exceptionOf v)
        replace e (·.replacePending exception)
      return none
  | .setInput x => do
      let v ← x.eval (field closure)
      replace e (·.replaceInput v)
      return none
  | .call c => do
      let v ← e.performCall (field closure) c
      modify fun (p, w) => ({ p with results := p.results ++ [v] }, w)
      return none
  | .yield x => do
      let v ← x.eval (field closure)
      stepOn e [v]
      return some (.yielded v)
  | .yieldInPlace x => return some (.yielded (← x.eval (field closure)))
  | .return x => do finishWith .returned (← x.eval (field closure))
  | .returnInPlace x => return some (.returned (← x.eval (field closure)))
  | .exhaust x => return some (.delegateExhausted (← x.eval (field closure)))
  | .raise x => do
      let v ← x.eval (field closure)
      Run.shared (e.raiseValue v)
  | .abort => Run.shared World.abort
  | .delegate => some <$> delegate e

/-- Carries out actions until one of them ends the run. -/
def actAll (e : Engine) (closure : Value) : List Action → Step Suspension
  | [] => do
      stepOn e []
      return .yielded .none
  | a :: rest => do
      match ← act e closure a with
      | some suspension => return suspension
      | none => actAll e closure rest

/-- The entry of a body at a resume point. -/
def entry? (entries : List (List Action)) (position : Int) : Option (List Action) :=
  if position < 0 then none else entries[position.toNat]?

/-- Carries out the entry at the resume point; there is nothing to do where no entry is. -/
def proceed (e : Engine) (s : Script) (closure : Value) : Step Suspension := do
  match entry? s.entries (← frameOf).position with
  | none =>
      modifyFrame Frame.markFinished
      return .returned .none
  | some actions => actAll e closure actions

/-- Treats an exception that is raised at the resume point. -/
def receive (e : Engine) (s : Script) (closure : Value) (exception : Exception) :
    Step Suspension := do
  match s.pending with
  | .finish =>
      modifyFrame Frame.markFinished
      Run.raise exception
  | .escape => Run.raise exception
  | .yield =>
      stepOn e exception.args
      return .yielded exception.toValue
  | .return =>
      modifyFrame Frame.markFinished
      return .returned exception.toValue
  | .exhaust => return .delegateExhausted exception.toValue
  | .returnValue x =>
      owning e exception.args do
        let v ← x.eval (field closure)
        modifyFrame Frame.markFinished
        return .returned v
  | .raise x =>
      owning e exception.args do
        let v ← x.eval (field closure)
        modifyFrame Frame.markFinished
        Run.shared (e.raiseValue v)
  | .ignore =>
      Run.shared (e.releaseException exception)
      proceed e s closure

end Performance

namespace Script

/-- Resumes a frame. -/
def resume (s : Script) (e : Engine) (closure : Value) (pending : Option Exception) :
    Run (Frame × World) Suspension := fun (f, w) =>
  let m : Performance.Step Suspension :=
    Run.ensuring
      (match pending with
        | none => Performance.proceed e s closure
        | some exception => Performance.receive e s closure exception)
      (do Run.shared (e.releaseAll (← get).1.results))
  match m (⟨f, []⟩, w) with
  | .ok suspension (p, w) => .ok suspension (p.frame, w)
  | .error reason (p, w) => .error reason (p.frame, w)

end Script

namespace CodeObject

/-- Resumes a frame, raising the given exception at the resume point. -/
def resume (c : CodeObject) (e : Engine) (closure : Value) (pending : Option Exception) :
    Run (Frame × World) Suspension :=
  match c.body with
  | .program p => p.resume e closure pending
  | .script s => s.resume e closure pending

end CodeObject

end Resumable
