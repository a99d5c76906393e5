import Resumable.Inspection
import Resumable.Session.Command

set_option autoImplicit false

/-!
# Reports

What a session answers to its commands.  Reports hold pictures, so they are drawn when the command
has done its work, and stay what they are when the world changes later.
-/

namespace Resumable.Session

open Resumable.Code

/-- An exception drawn for a reader; there is no text when an argument is a list found inside
itself. -/
structure ExceptionPicture where
  kind : ExceptionKind
  args : List Picture
  traceback : Option Traceback
  text : Option String
  deriving Repr, Inhabited

/-- The end of something that may raise. -/
inductive Outcome where
  | value (p : Picture)
  | raised (e : ExceptionPicture)
  deriving Repr, Inhabited

/-- A frame in all detail. -/
structure FrameDetails where
  position : Int
  locals : List Picture
  /-- the value stack, the lowest value first -/
  stack : List Picture
  /-- the handlers, the outermost first -/
  blocks : List HandlerBlock
  delegate : Option Picture
  pending : Option Picture
  isStarted : Bool
  isFinished : Bool
  place : TraceEntry
  deriving Repr, Inhabited

/-- A frame drawn for a reader. -/
inductive FramePicture where
  | inUse
  | short (position : Int)
  | full (details : FrameDetails)
  deriving Repr, Inhabited

/-- A generator drawn for a reader. -/
structure GeneratorPicture where
  state : GeneratorState
  delegate : Option Picture
  frame : Option FramePicture
  deriving Repr, Inhabited

/-- A generator with its attributes. -/
structure GeneratorInfo where
  name : String
  qualifiedName : String
  code : Picture
  running : Bool
  closure : Picture
  repr : String
  full : GeneratorPicture
  deriving Repr, Inhabited

/-- A program with all its parts as texts. -/
structure ProgramListing where
  instructions : List String
  debug : List String
  localNames : List String
  argCount : Nat
  constants : List String
  values : List Picture
  listing : String
  /-- the names of the variables, and of the index after the last -/
  names : List String
  deriving Repr, Inhabited

/-- The texts of a value. -/
structure Texts where
  repr : String
  display : String
  debug : String
  deriving Repr, Inhabited

/-- A value with everything that can be asked of it. -/
structure ValueInfo where
  value : Picture
  type : ValueType
  typeName : String
  truthy : Bool
  isNone : Bool
  asInt : Option Int64
  isGenerator : Bool
  isException : Bool
  kind : Option ExceptionKind
  /-- absent for a list found inside itself -/
  texts : Option Texts
  deriving Repr, Inhabited

/-- An exception with everything that can be asked of it. -/
structure ExceptionInfo where
  kind : ExceptionKind
  args : List Picture
  message : Option String
  texts : Option Texts
  stopValue : Picture
  catchers : List ExceptionKind
  traceback : Option Traceback
  deriving Repr, Inhabited

/-- The end of a resume of a frame on its own. -/
inductive FrameEnding where
  | yielded (p : Picture)
  | returned (p : Picture)
  | exhausted (p : Picture)
  | raised (e : ExceptionPicture)
  deriving Repr, Inhabited

/-- What a session answers to a command. -/
inductive Report where
  | done
  | drove (outcome : Outcome) (generator : GeneratorPicture)
  /-- the next item, absent at the end of the iteration -/
  | stepped (item : Option Outcome) (generator : GeneratorPicture)
  | iterated (same : Bool) (generator : GeneratorPicture)
  | collected (items : List Outcome) (more : Option Outcome) (generator : GeneratorPicture)
  | info (i : GeneratorInfo) (generator : GeneratorPicture)
  | assemblyFailed (e : AssemblyError)
  | program (listing : ProgramListing)
  | frame (f : FramePicture)
  | frameRan (ending : FrameEnding) (f : FramePicture)
  | value (p : Picture)
  | values (ps : List Picture)
  | flag (b : Bool)
  | traversed (typeNames : List String) (stopped : Bool)
  | inspected (i : ValueInfo)
  | compared (equal : Option Bool) (same : Bool)
  | code (name filename repr : String)
  | outcome (o : Outcome)
  | exception (i : ExceptionInfo)
  | kind (k : ExceptionKind) (bases : List ExceptionKind)
  | instruction (i : Instruction) (moved : Option Instruction)
  | gotIter (o : Outcome) (same : Bool)
  | item (o : Option Outcome)
  /-- the end of closing an iterator, absent when there is no way to close it -/
  | closed (o : Option Outcome)
  | thread (limit depth : Nat)
  | depth (depth : Nat)
  | refusedLevel (e : ExceptionPicture) (depth : Nat)
  | writeFailed (e : DiagnosticError)
  /-- the command made no sense -/
  | malformed (message : String)
  /-- the computation was abandoned -/
  | aborted
  /-- the fuel ran out -/
  | outOfFuel
  deriving Repr, Inhabited

/-- A report, with what was written and noted meanwhile. -/
structure Answer where
  report : Report
  diagnostics : String
  log : List LogEntry
  deriving Repr, Inhabited

end Resumable.Session

namespace Resumable.World

open Resumable.Session

/-- Draws values. -/
def pictures (w : World) (vs : List Value) : List Picture := vs.map w.picture

/-- Draws an exception. -/
def exceptionPicture (w : World) (e : Exception) : ExceptionPicture :=
  let forms := w.forms e.args
  { kind := e.kind
    args := w.pictures e.args
    traceback := e.traceback
    text := if forms.any Form.isCyclic then none else some (w.exceptionText e) }

/-- Whether an exception has no text at present, because its text would need the type name of an
iterator that is in use. -/
def isUnspeakable (w : World) (e : Exception) : Bool :=
  let forms := w.forms e.args
  !forms.any Form.isCyclic && forms.any Form.isInUse

/-- Draws an exception; one that has no text at present abandons the computation. -/
def drawException (e : Exception) : Run World ExceptionPicture := do
  let w ← get
  if w.isUnspeakable e then abort else return w.exceptionPicture e

/-- Draws the end of something that may raise. -/
def drawOutcome : Except Exception Value → Run World Outcome
  | .ok v => do return .value ((← get).picture v)
  | .error e => do return .raised (← drawException e)

/-- Draws a frame in all detail. -/
def frameDetails (w : World) (f : Frame) : FrameDetails :=
  let code := w.code f.code
  { position := f.position
    locals := w.pictures f.locals
    stack := w.pictures f.stack.reverse
    blocks := f.blocks.reverse
    delegate := f.delegate.map w.picture
    pending := f.pending.map fun e => w.picture e.toValue
    isStarted := f.isStarted
    isFinished := f.isFinished
    place := f.traceEntry code.name code.filename }

/-- Draws a frame, in all detail or by its resume point only. -/
def framePicture (w : World) (full : Bool) (r : FrameRef) : FramePicture :=
  match w.frame? r with
  | none => .inUse
  | some f => if full then .full (w.frameDetails f) else .short f.position

/-- Draws a generator. -/
def generatorPicture (w : World) (full : Bool) (g : GeneratorRef) : GeneratorPicture where
  state := w.stateOf g
  delegate := (w.delegateOf g).map w.picture
  frame := (w.generator g).frame.map (w.framePicture full)

/-- Draws a generator with its attributes. -/
def generatorInfo (w : World) (g : GeneratorRef) : GeneratorInfo where
  name := w.generatorName g
  qualifiedName := w.generatorName g
  code := w.picture (.code (w.generator g).code)
  running := (w.generator g).running
  closure := w.picture (w.generator g).closure
  repr := w.repr (.generator g)
  full := w.generatorPicture true g

/-- Draws a program. -/
def programListing (w : World) (p : Code.Program) : ProgramListing where
  instructions := p.instructions.map Code.Instruction.text
  debug := p.instructions.map Code.Instruction.debugText
  localNames := p.localNames
  argCount := p.argCount
  constants := p.constants.map Code.Constant.text
  values := p.constants.map fun c => w.picture c.toValue
  listing := p.listing
  names := (List.range (p.localNames.length + 1)).map p.variableName

/-- Draws a value with everything that can be asked of it. -/
def valueInfo (w : World) (v : Value) : ValueInfo :=
  let form := w.form v
  { value := w.picture v
    type := v.type
    typeName := (w.typeName? v).getD ""
    truthy := w.isTruthy v
    isNone := v.isNone
    asInt := v.asInt
    isGenerator := v.asGenerator.isSome
    isException := v.asException.isSome
    kind := v.exceptionKind
    texts := if form.isCyclic then none else some ⟨form.repr, form.display, form.repr⟩ }

/-- Draws an exception with everything that can be asked of it. -/
def exceptionInfo (w : World) (e : Exception) : ExceptionInfo :=
  let forms := w.forms e.args
  let readable := !forms.any Form.isCyclic
  { kind := e.kind
    args := w.pictures e.args
    message := if readable then Form.message? forms else none
    texts :=
      if readable then some ⟨w.repr e.toValue, w.exceptionText e, w.exceptionDebugText e⟩
      else none
    stopValue := w.picture e.stopValue
    catchers := ExceptionKind.all.filter e.isCaughtBy
    traceback := e.traceback }

end Resumable.World
