import Resumable.Adapter
import Resumable.Session.Report

set_option autoImplicit false

/-!
# Carrying out commands

A command evaluates its operands, does its work, draws the result and forgets it; a generator or a
frame that it worked on is drawn after that, so that what forgetting the result led to is seen.  The
operands are forgotten last.  What is written and noted up to then belongs to the answer.
-/

namespace Resumable.Session

variable {α : Type}

/-! ## Operands and variables -/

/-- Makes the value of an expression that stands outside of any body. -/
def evaluate (x : Expr) : Run World Value := Run.withPrivate () (x.eval noFields) fun _ => pure ()

/-- Makes the values of expressions. -/
def evaluateAll (xs : List Expr) : Run World (List Value) :=
  Run.withPrivate () (Expr.evalAll noFields xs) fun _ => pure ()

/-- Evaluates an operand for the time of a computation. -/
def withOperand (e : Engine) (x : Expr) (m : Value → Run World α) : Run World α := do
  let v ← evaluate x
  e.owning v (m v)

/-- Evaluates an operand, if there is one. -/
def evaluate? : Option Expr → Run World (Option Value)
  | none => pure none
  | some x => some <$> evaluate x

/-- Sets a variable; what it held is forgotten once the new value is in place. -/
def setVariable (e : Engine) (name : String) (v : Value) : Run World Unit := do
  let old := (← get).names.get? name
  modify fun w => { w with names := w.names.insert name v }
  e.releaseAll old.toList

/-- Removes a variable. -/
def removeVariable (e : Engine) (name : String) : Run World Unit := do
  let old := (← get).names.get? name
  modify fun w => { w with names := w.names.erase name }
  e.releaseAll old.toList

/-- The value or the exception as a value. -/
def resultValue : Except Exception Value → Value
  | .ok v => v
  | .error exception => exception.toValue

/-- Keeps a value in a variable, if one is given. -/
def keepIn (e : Engine) (keep : Option String) (v : Value) : Run World Unit :=
  match keep with
  | none => pure ()
  | some name => do
      World.share v
      setVariable e name v

/-- Keeps an outcome in a variable, if one is given, and then draws it and forgets it. -/
def drawOutcome (e : Engine) (keep : Option String) (result : Except Exception Value) :
    Run World Outcome :=
  e.owning (resultValue result) do
    keepIn e keep (resultValue result)
    World.drawOutcome result

/-- Works on the generator in a variable. -/
def withGenerator (e : Engine) (name : String) (m : GeneratorRef → Run World Report) :
    Run World Report :=
  withOperand e (.variable name) fun v =>
    match v with
    | .generator g => m g
    | _ => return .malformed (name ++ " is not a generator")

/-- The frame that a value is, or that a generator has. -/
def frameOf (w : World) : Value → Option FrameRef
  | .frame r => some r
  | .generator g => (w.generator g).frame
  | _ => none

/-- Works on a frame. -/
def withFrameOf (e : Engine) (x : Expr) (m : FrameRef → Run World Report) : Run World Report :=
  withOperand e x fun v => do
    match frameOf (← get) v with
    | none => return .malformed "no frame"
    | some r =>
        World.share (.frame r)
        e.owning (.frame r) (m r)

/-- Works on a list. -/
def withList (e : Engine) (x : Expr) (m : ListRef → Run World Unit) : Run World Report :=
  withOperand e x fun v => do
    match v with
    | .list r =>
        m r
        return .value ((← get).picture v)
    | _ => return .malformed "not a list"

/-- Works on an iterator that is not a generator. -/
def withIteratorOf (e : Engine) (x : Expr) (m : IteratorRef → Run World Report) :
    Run World Report :=
  withOperand e x fun v =>
    match v with
    | .iterator r => m r
    | _ => return .malformed "not an iterator"

/-! ## Code, generators and frames -/

/-- Adds a code object and puts it into a variable. -/
def defineCode (e : Engine) (name : String) (c : CodeObject) : Run World Report := do
  let (r, w) := (← get).newCode c
  set w
  setVariable e name (.code r)
  return .done

/-- Assembles a code object into a variable. -/
def assemble (e : Engine) (name : String) (source : Code.Source) : Run World Report := do
  match source.assembler.assemble with
  | .error fault => return .assemblyFailed fault
  | .ok program => defineCode e name ⟨source.name, source.filename, .program program⟩

/-- Works on the code object in a variable. -/
def withCode (name : String) (m : CodeRef → Run World Report) : Run World Report := do
  match (← get).names.get? name with
  | some (.code r) => m r
  | _ => return .malformed (name ++ " is not a code object")

/-- Makes a generator into a variable. -/
def makeGenerator (e : Engine) (name code : String) (args : List Expr) (closure : Expr) :
    Run World Report :=
  withCode code fun r => do
    let args ← evaluateAll args
    let closure ← evaluate closure
    let (g, w) := (← get).newGenerator r args closure
    set w
    setVariable e name (.generator g)
    return .done

/-- Makes a frame into a variable. -/
def makeFrame (e : Engine) (name code : String) (args : List Expr) : Run World Report :=
  withCode code fun r => do
    let args ← evaluateAll args
    let (f, w) := (← get).newFrame (.new r args)
    set w
    setVariable e name (.frame f)
    return .done

/-! ## Driving generators -/

/-- Carries out an operation on a generator. -/
def drive (e : Engine) (g : GeneratorRef) : Drive → Run World Value
  | .next => e.next g
  | .send x => do e.send g (← evaluate x)
  | .throw type value traceback => do
      let type ← evaluate type
      let value ← evaluate? value
      let traceback ← evaluate? traceback
      e.throw g ⟨type, value, traceback⟩
  | .close => e.close g
  | .getAttribute name => do
      let v ← Run.ofExcept ((← get).getAttribute g name)
      World.share v
      return v

/-- Pulls an item and draws it; the item itself is forgotten. -/
def pullOutcome (e : Engine) (a : Adapter) : Run World (Option Outcome × Adapter) := do
  match ← a.pull e with
  | (none, a) => return (none, a)
  | (some item, a) => return (some (← drawOutcome e none item), a)

/-- Pulls up to so many items, in order. -/
def pullAll (e : Engine) : Nat → Adapter → Run World (List Outcome × Adapter)
  | 0, a => pure ([], a)
  | n + 1, a => do
      match ← pullOutcome e a with
      | (none, a) => return ([], a)
      | (some outcome, a) =>
          let (outcomes, a) ← pullAll e n a
          return (outcome :: outcomes, a)

/-- Pulls up to so many items, and one more if there were fewer. -/
def collect (e : Engine) (full : Bool) (g : GeneratorRef) (max : Nat) : Run World Report := do
  let (items, a) ← pullAll e max (.new g)
  let (more, _) ← if items.length < max then pullOutcome e a else pure (none, a)
  return .collected items more ((← get).generatorPicture full g)

/-! ## Frames -/

/-- Changes a frame and puts it back before what it no longer holds is forgotten. -/
def exchange (e : Engine) (r : FrameRef) (change : Frame → Frame × List Value) :
    Run World Unit := do
  let removed ← World.withFrame r fun (f, w) =>
    let (f, removed) := change f
    .ok removed (f, w)
  e.releaseAll removed

/-- Changes a frame. -/
def editFrame (e : Engine) (r : FrameRef) : FrameEdit → Run World Unit
  | .position n => exchange e r fun f => ({ f with position := n }, [])
  | .finish => exchange e r fun f => (f.markFinished, [])
  | .locals xs => do
      let vs ← evaluateAll xs
      exchange e r (·.replaceLocals vs)
  | .stack xs => do
      let vs ← evaluateAll xs
      exchange e r (·.replaceStack vs.reverse)
  | .blocks blocks =>
      exchange e r fun f =>
        ({ f with blocks := (blocks.map fun (handler, depth) => ⟨handler, depth⟩).reverse }, [])
  | .delegate x => do
      let v ← evaluate x
      exchange e r (·.replaceDelegate v)
  | .pending x => do
      let exception ← withOperand e x World.exceptionOf
      exchange e r (·.replacePending exception)
  | .input x => do
      let v ← evaluate x
      e.put r v Frame.replaceInput
  | .delegation x => do
      let v ← evaluate x
      e.finishDelegation r v

/-- Takes a value out of a frame. -/
def takeFrom (r : FrameRef) (taking : FrameTaking) : Run World Value :=
  World.withFrame r fun (f, w) =>
    match taking with
    | .input => .ok (f.input.getD .none) ({ f with input := none }, w)
    | .result => .ok (f.delegationResult.getD .none) ({ f with delegationResult := none }, w)

/-- Resumes the code of a frame on its own. -/
def runFrame (e : Engine) (r : FrameRef) (closure : Value) (pending : Option Exception) :
    Run World Suspension := do
  let w ← get
  let code := ((w.frame? r).map fun f => w.code f.code).getD default
  World.withFrame r (code.resume e closure pending)

/-- Draws a value, which is then forgotten. -/
def drawValue (e : Engine) (v : Value) : Run World Picture :=
  e.owning v do return (← get).picture v

/-- Draws how a resume of a frame ended; what it ended with is then forgotten. -/
def drawEnding (e : Engine) : Except Exception Suspension → Run World FrameEnding
  | .ok (.yielded v) => .yielded <$> drawValue e v
  | .ok (.returned v) => .returned <$> drawValue e v
  | .ok (.delegateExhausted v) => .exhausted <$> drawValue e v
  | .error exception =>
      e.owning exception.toValue do return .raised (← World.drawException exception)

/-! ## Items -/

/-- Draws an item, which is then forgotten. -/
def drawItem (e : Engine) : Except Exception (Option Value) → Run World (Option Outcome)
  | .ok none => pure none
  | .ok (some v) => some <$> drawOutcome e none (.ok v)
  | .error exception => some <$> drawOutcome e none (.error exception)

/-- Takes an item from an iterator.  The item is drawn and forgotten while the iterator is still in
use. -/
def drawItemOf (e : Engine) (r : IteratorRef) (m : Run (Iterator × World) (Option Value)) :
    Run World (Option Outcome) :=
  World.withIterator r do
    let item ← Run.attempt m
    Run.shared (drawItem e item)

/-- Closes an iterator, if there is a way to close it.  The outcome is drawn and forgotten while the
iterator is still in use. -/
def drawClosed (e : Engine) (r : IteratorRef) : Run World (Option Outcome) :=
  World.withIterator r do
    match ← Iterator.close? e with
    | none => return none
    | some result => Run.shared (some <$> drawOutcome e none result)

/-! ## Looking at values -/

/-- What a generator or a frame refers to, as a traversal by a visitor sees it. -/
def traverse {σ : Type} (v : Value) (visit : Visitor σ) (start : σ) :
    Run World (Option (Bool × σ)) := do
  match v with
  | .generator g => return some ((((← get).generator g).traverse visit).run start)
  | .frame r => return some (((← World.readFrame r).traverse visit).run start)
  | _ => return none

/-- Makes an exception. -/
def construct : Construction → Run World Exception
  | .stopIteration => return .stopIteration
  | .stopIterationWith x => return .stopIterationWith (← evaluate x)
  | .generatorExit => return .generatorExit
  | .typeError message => return .typeError message
  | .valueError message => return .valueError message
  | .runtimeError message => return .runtimeError message
  | .recursionError => return .recursionError
  | .attributeError typeName attr => return .attributeError typeName attr
  | .nameError message => return .nameError message
  | .systemError message => return .systemError message

/-! ## Levels of the thread -/

/-- Takes a level and holds it. -/
def holdLevel : Run World Report := do
  match ← Run.attempt World.enter with
  | .ok () =>
      modify fun w => { w with held := w.thread.id :: w.held }
      return .depth (← get).thread.depth
  | .error exception =>
      let w ← get
      return .refusedLevel (w.exceptionPicture exception) w.thread.depth

/-- Gives back the level that was taken last; a level of an earlier thread goes back to that. -/
def dropLevel : Run World Report := do
  let w ← get
  match w.held with
  | [] => pure ()
  | id :: rest =>
      set { w with
        held := rest
        thread := if id = w.thread.id then w.thread.leave else w.thread }
  return .depth (← get).thread.depth

/-! ## Commands -/

/-- Carries out a command. -/
def carryOut (e : Engine) (full : Bool) : Command → Run World Report
  | .bind name x => do
      setVariable e name (← evaluate x)
      return .done
  | .unbind name => do
      removeVariable e name
      return .done
  | .assemble name source => assemble e name source
  | .disassemble source => do
      match source.assembler.assemble with
      | .error fault => return .assemblyFailed fault
      | .ok program => return .program ((← get).programListing program)
  | .makeGenerator name code args closure => makeGenerator e name code args closure
  | .makeScript name codeName filename script =>
      defineCode e name ⟨codeName, filename, .script script⟩
  | .makeFrame name code args => makeFrame e name code args
  | .drive name operation keep =>
      withGenerator e name fun g => do
        let outcome ← drawOutcome e keep (← Run.attempt (drive e g operation))
        return .drove outcome ((← get).generatorPicture full g)
  | .nextOrEnd name =>
      withGenerator e name fun g => do
        let item ← drawItem e (← Run.attempt (e.nextOrEnd g))
        return .stepped item ((← get).generatorPicture full g)
  | .iter name =>
      withGenerator e name fun g => return .iterated true ((← get).generatorPicture full g)
  | .collect name max => withGenerator e name fun g => collect e full g max
  | .info name =>
      withGenerator e name fun g => do
        let w ← get
        return .info (w.generatorInfo g) (w.generatorPicture full g)
  | .showFrame x => withFrameOf e x fun r => return .frame ((← get).framePicture true r)
  | .editFrame x edit =>
      withFrameOf e x fun r => do
        editFrame e r edit
        return .frame ((← get).framePicture true r)
  | .takeFrom x taking =>
      withFrameOf e x fun r => do
        return .value (← drawValue e (← takeFrom r taking))
  | .runFrame x closure pending =>
      withFrameOf e x fun r =>
        withOperand e closure fun closure => do
          let pending ←
            match pending with
            | none => pure none
            | some x => some <$> withOperand e x World.exceptionOf
          let ending ← drawEnding e (← Run.attempt (runFrame e r closure pending))
          return .frameRan ending ((← get).framePicture true r)
  | .referents x =>
      withOperand e x fun v => do
        match ← traverse v Visitor.collecting [] with
        | none => return .malformed "nothing to traverse"
        | some (_, seen) => return .values ((← get).pictures seen)
  | .traverse x enough =>
      withOperand e x fun v => do
        let visit :=
          match enough with
          | none => Visitor.collecting
          | some n => Visitor.counting n
        match ← traverse v visit [] with
        | none => return .malformed "nothing to traverse"
        | some (stopped, seen) =>
            let w ← get
            return .traversed (seen.map fun u => (w.typeName? u).getD "") stopped
  | .refers x target =>
      withOperand e x fun v =>
        withOperand e target fun o => do
          match v with
          | .generator g => return .flag (((← get).generator g).refersDirectlyTo o)
          | .frame r => return .flag ((← World.readFrame r).refersDirectlyTo o)
          | _ => return .malformed "nothing to traverse"
  | .inspect x => withOperand e x fun v => return .inspected ((← get).valueInfo v)
  | .show x => withOperand e x fun v => return .value ((← get).picture v)
  | .compare a b =>
      withOperand e a fun a =>
        withOperand e b fun b => do
          let w ← get
          let equal := if w.isCyclic a || w.isCyclic b then none else some (w.equal a b)
          return .compared equal (a.sameIdentity b)
  | .describeCode x =>
      withOperand e x fun v => do
        let w ← get
        match v with
        | .code r => return .code (w.code r).name (w.code r).filename (w.repr v)
        | _ => return .malformed "not a code object"
  | .normalize type value keep =>
      withOperand e type fun type => do
        let value ← evaluate? value
        let result ← Run.attempt (World.normalize type value)
        let outcome ← drawOutcome e keep (result.map Exception.toValue)
        e.releaseAll value.toList
        return .outcome outcome
  | .construct construction => do
      return .outcome (← drawOutcome e none (.error (← construct construction)))
  | .describeException x =>
      withOperand e x fun v => do
        match v.asException with
        | none => return .malformed "not an exception"
        | some exception => return .exception ((← get).exceptionInfo exception)
  | .describeKind kind => return .kind kind (ExceptionKind.all.filter kind.isSubclassOf)
  | .describeInstruction i offset => return .instruction i (offset.map i.withOffset)
  | .getIter x keep =>
      withOperand e x fun v => do
        let result ← Run.attempt (World.getIter v)
        let same := (result.toOption.map v.sameIdentity).getD false
        return .gotIter (← drawOutcome e keep result) same
  | .closeIter x =>
      withOperand e x fun v => do
        return .outcome (← drawOutcome e none (← Run.attempt (e.closeIter v)))
  | .iteratorNext x =>
      withIteratorOf e x fun r => do
        return .item (← drawItemOf e r (Iterator.next e))
  | .iteratorSend x value =>
      withIteratorOf e x fun r => do
        let v ← evaluate value
        return .item (← drawItemOf e r (Iterator.send e v))
  | .iteratorClose x =>
      withIteratorOf e x fun r => return .closed (← drawClosed e r)
  | .listPush x value =>
      withList e x fun r => do
        let v ← evaluate value
        modify fun w => w.setItems r (w.items r ++ [v])
  | .listPop x =>
      withList e x fun r => do
        let items := (← get).items r
        modify (·.setItems r items.dropLast)
        e.releaseAll items.getLast?.toList
  | .listClear x =>
      withList e x fun r => do
        let items := (← get).items r
        modify (·.setItems r [])
        e.releaseAll items
  | .install limit sink => do
      modify fun w => { w with thread := ⟨w.thread.id + 1, limit, 0, sink⟩ }
      return .thread limit 0
  | .thread => do
      let t := (← get).thread
      return .thread t.limit t.depth
  | .enter => holdLevel
  | .leave => dropLevel
  | .writeLine line => do
      let (written, w) := (← get).writeLine line
      set w
      match written with
      | .ok () => return .done
      | .error fault => return .writeFailed fault

/-- Carries out a command on a world and answers with what came of it. -/
def step (fuel : Nat) (full : Bool) (w : World) (c : Command) : Answer × World :=
  let fresh := { w with diagnostics := "", log := [] }
  let (report, w) :=
    match carryOut (Machine.engine fuel) full c fresh with
    | .ok report w => (report, w)
    | .error (.raised _) w => (.malformed "an exception escaped", w)
    | .error .aborted w => (.aborted, { w with unwinding := false })
    | .error .outOfFuel w => (.outOfFuel, w)
  (⟨report, w.diagnostics, w.log⟩, w)

/-- Carries out commands in order and answers each of them. -/
def run (fuel : Nat) (full : Bool) (w : World) : List Command → List Answer
  | [] => []
  | c :: cs =>
      let (answer, w) := step fuel full w c
      answer :: run fuel full w cs

end Resumable.Session
