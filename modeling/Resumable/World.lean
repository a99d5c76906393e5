import Resumable.Code.Assembler
import Resumable.Frame
import Resumable.Picture
import Resumable.Run
import Resumable.Script
import Resumable.Store
import Resumable.Thread

set_option autoImplicit false

/-!
# The world

Everything that running code can reach: the objects, the variables, the current thread, and the
journal of what was written and noted.

Objects are owned by counting.  An object that is being worked on is out of its cell: the cell of a
frame is vacant while its body runs, and the cell of an iterator while one of its methods runs.
Whoever needs the content meanwhile finds the cell vacant; most operations are then abandoned,
and a few are written to go on without it.
-/

namespace Resumable

/-! ## Objects -/

/-- What a code object executes. -/
inductive Body where
  | program (p : Code.Program)
  | script (s : Script)
  deriving Inhabited

/-- A code object; it is immutable and shared by all generators made from it. -/
structure CodeObject where
  name : String
  filename : String
  body : Body
  deriving Inhabited

/-- An iterator that is not a generator. -/
inductive Iterator where
  /-- steps through a list, which may grow meanwhile -/
  | list (source : ListRef) (index : Nat)
  /-- follows a script -/
  | scripted (s : ScriptedIterator)
  deriving Inhabited

namespace Iterator

/-- The name of the iterator's type. -/
def typeName : Iterator → String
  | list _ _ => ValueType.listIterator.name
  | scripted s => s.name

end Iterator

/-- A generator.  It lets go of its frame when the body returns or raises, which is how a finished
generator is recognised. -/
structure Generator where
  code : CodeRef
  closure : Value
  frame : Option FrameRef
  /-- whether its body, or its delegate on its behalf, is executing -/
  running : Bool
  deriving DecidableEq, Repr, Inhabited

/-- An object whose owners are counted. -/
inductive Object where
  | list (r : ListRef)
  | iterator (r : IteratorRef)
  | generator (r : GeneratorRef)
  | frame (r : FrameRef)
  deriving DecidableEq, Repr, Inhabited

mutual

/-- The objects that a value is an owner of, each as often as it owns it. -/
def Value.objects : Value → List Object
  | .list r => [.list r]
  | .iterator r => [.iterator r]
  | .generator r => [.generator r]
  | .frame r => [.frame r]
  | .exception _ args _ => Value.objectsOfAll args
  | _ => []

/-- The objects that the values are owners of, in order. -/
def Value.objectsOfAll : List Value → List Object
  | [] => []
  | v :: vs => v.objects ++ Value.objectsOfAll vs

end

/-! ## The journal -/

/-- What is noted while a computation goes on. -/
inductive LogEntry where
  /-- a value was sent to the named iterator -/
  | sent (value : Picture) (receiver : String)
  /-- the named iterator was closed -/
  | closed (name : String)
  /-- closing an iterator made a call, with this result -/
  | called (result : Picture)
  /-- a write to the diagnostic stream from within a write was refused -/
  | refused (error : DiagnosticError)
  deriving Repr, Inhabited

/-! ## The world -/

/-- The variables in the order of their names. -/
abbrev Names := List (String × Value)

namespace Names

/-- The value of a variable. -/
def get? (names : Names) (name : String) : Option Value := names.lookup name

/-- Sets a variable; the order of names is kept. -/
def insert (names : Names) (name : String) (v : Value) : Names :=
  match names with
  | [] => [(name, v)]
  | (other, u) :: rest =>
      if name < other then (name, v) :: (other, u) :: rest
      else if name = other then (name, v) :: rest
      else (other, u) :: insert rest name v

/-- Removes a variable. -/
def erase (names : Names) (name : String) : Names := names.filter (·.1 != name)

/-- The first variable that holds the same object. -/
def nameOf? (names : Names) (v : Value) : Option String :=
  (names.find? fun (_, u) => u.sameIdentity v).map (·.1)

end Names

/-- Everything that running code can reach. -/
structure World where
  lists : Store (List Value)
  iterators : Store (Option Iterator)
  generators : Store Generator
  frames : Store (Option Frame)
  codes : List CodeObject
  names : Names
  thread : Thread
  /-- the threads whose levels are held from outside, the latest first -/
  held : List Nat
  /-- the text collected by the diagnostic stream -/
  diagnostics : String
  /-- what was noted, in order -/
  log : List LogEntry
  /-- set while a computation is being abandoned; nothing is finalized meanwhile -/
  unwinding : Bool
  deriving Inhabited

namespace World

/-- A world without objects. -/
def new (limit : Nat) (sink : Sink) : World where
  lists := .empty
  iterators := .empty
  generators := .empty
  frames := .empty
  codes := []
  names := []
  thread := ⟨0, limit, 0, sink⟩
  held := []
  diagnostics := ""
  log := []
  unwinding := false

/-! ### Contents -/

/-- The items of a list. -/
def items (w : World) (r : ListRef) : List Value := w.lists.content r.index

/-- An iterator; absent while one of its methods runs. -/
def iterator? (w : World) (r : IteratorRef) : Option Iterator := w.iterators.content r.index

/-- A generator. -/
def generator (w : World) (r : GeneratorRef) : Generator := w.generators.content r.index

/-- A frame; absent while it is in use. -/
def frame? (w : World) (r : FrameRef) : Option Frame := w.frames.content r.index

/-- A code object. -/
def code (w : World) (r : CodeRef) : CodeObject := w.codes[r.index]?.getD default

/-- Replaces the items of a list. -/
def setItems (w : World) (r : ListRef) (items : List Value) : World :=
  { w with lists := w.lists.setContent r.index items }

/-- Replaces an iterator. -/
def setIterator (w : World) (r : IteratorRef) (i : Option Iterator) : World :=
  { w with iterators := w.iterators.setContent r.index i }

/-- Replaces a generator. -/
def setGenerator (w : World) (r : GeneratorRef) (g : Generator) : World :=
  { w with generators := w.generators.setContent r.index g }

/-- Replaces a frame. -/
def setFrame (w : World) (r : FrameRef) (f : Option Frame) : World :=
  { w with frames := w.frames.setContent r.index f }

/-! ### Allocation -/

/-- Makes a list, which takes over the ownership of its items. -/
def newList (w : World) (items : List Value) : ListRef × World :=
  let (i, lists) := w.lists.alloc items
  (⟨i⟩, { w with lists := lists })

/-- Makes an iterator. -/
def newIterator (w : World) (i : Iterator) : IteratorRef × World :=
  let (n, iterators) := w.iterators.alloc (some i)
  (⟨n⟩, { w with iterators := iterators })

/-- Makes a frame, which takes over the ownership of what it holds. -/
def newFrame (w : World) (f : Frame) : FrameRef × World :=
  let (i, frames) := w.frames.alloc (some f)
  (⟨i⟩, { w with frames := frames })

/-- Makes a generator for the first run of a body; it takes over its arguments and its closure. -/
def newGenerator (w : World) (code : CodeRef) (args : List Value) (closure : Value) :
    GeneratorRef × World :=
  let (f, w) := w.newFrame (.new code args)
  let (i, generators) := w.generators.alloc ⟨code, closure, some f, false⟩
  (⟨i⟩, { w with generators := generators })

/-- Adds a code object. -/
def newCode (w : World) (c : CodeObject) : CodeRef × World :=
  (⟨w.codes.length⟩, { w with codes := w.codes ++ [c] })

/-! ### Owners -/

/-- The number of owners of an object. -/
def owners (w : World) : Object → Nat
  | .list r => w.lists.owners r.index
  | .iterator r => w.iterators.owners r.index
  | .generator r => w.generators.owners r.index
  | .frame r => w.frames.owners r.index

/-- Sets the number of owners of an object. -/
def setOwners (w : World) (n : Nat) : Object → World
  | .list r => { w with lists := w.lists.setOwners r.index n }
  | .iterator r => { w with iterators := w.iterators.setOwners r.index n }
  | .generator r => { w with generators := w.generators.setOwners r.index n }
  | .frame r => { w with frames := w.frames.setOwners r.index n }

/-- Adds an owner to each of the objects. -/
def addOwners (w : World) (os : List Object) : World :=
  os.foldl (fun w o => w.setOwners (w.owners o + 1) o) w

/-- Adds an owner to what a value refers to. -/
def retain (w : World) (v : Value) : World := w.addOwners v.objects

/-- Adds an owner to what each of the values refers to. -/
def retainAll (w : World) (vs : List Value) : World := w.addOwners (Value.objectsOfAll vs)

@[simp] theorem items_setItems (w : World) (r s : ListRef) (items : List Value) :
    (w.setItems r items).items s = if r = s then items else w.items s := by
  simp [World.items, setItems, ListRef.ext_iff]

@[simp] theorem iterator_setIterator (w : World) (r s : IteratorRef) (i : Option Iterator) :
    (w.setIterator r i).iterator? s = if r = s then i else w.iterator? s := by
  simp [iterator?, setIterator, IteratorRef.ext_iff]

@[simp] theorem generator_setGenerator (w : World) (r s : GeneratorRef) (g : Generator) :
    (w.setGenerator r g).generator s = if r = s then g else w.generator s := by
  simp [generator, setGenerator, GeneratorRef.ext_iff]

@[simp] theorem frame_setFrame (w : World) (r s : FrameRef) (f : Option Frame) :
    (w.setFrame r f).frame? s = if r = s then f else w.frame? s := by
  simp [frame?, setFrame, FrameRef.ext_iff]

theorem retain_of_objects_nil (w : World) {v : Value} (h : v.objects = []) : w.retain v = w := by
  rw [retain, h]; rfl

/-! ### The thread and the journal -/

/-- Notes an entry. -/
def note (w : World) (e : LogEntry) : World := { w with log := w.log ++ [e] }

/-- Adds text to what the diagnostic stream collected. -/
def collect (w : World) (s : String) : World := { w with diagnostics := w.diagnostics ++ s }

/-- One write to the diagnostic stream. -/
def write (w : World) (s : String) : Except DiagnosticError Unit × World :=
  match w.thread.sink with
  | .collecting => (.ok (), w.collect s)
  | .unflushable => (.ok (), w.collect s)
  | .reentrant => (.ok (), (w.note (.refused .streamBusy)).collect s)
  | .broken => (.error (.io "closed"), w)
  | .inUse => (.error .streamBusy, w)

/-- Makes sure that what was written has arrived. -/
def flush (w : World) : Except DiagnosticError Unit :=
  match w.thread.sink with
  | .unflushable => .error (.io "cannot flush")
  | _ => .ok ()

/-- Writes a line to the diagnostic stream. -/
def writeLine (w : World) (line : String) : Except DiagnosticError Unit × World :=
  let (written, w) := if line.isEmpty then (.ok (), w) else w.write line
  match written with
  | .error e => (.error e, w)
  | .ok () =>
      match w.write "\n" with
      | (.error e, w) => (.error e, w)
      | (.ok (), w) => (w.flush, w)

end World

/-! ## Requests -/

/-- The arguments of a throw, each of which may be left out but the first. -/
structure Throw where
  type : Value
  value : Option Value
  traceback : Option Value
  deriving DecidableEq, Repr, Inhabited

/-- What code that runs can ask for.  Every request takes over the ownership of the values in it
and gives that of its result. -/
inductive Request where
  /-- resumes a generator, with a value to send unless it is `none` -/
  | resume (g : GeneratorRef) (input : Value)
  /-- throws an exception into a generator -/
  | throw (g : GeneratorRef) (thrown : Throw)
  /-- closes a generator -/
  | close (g : GeneratorRef)
  /-- disposes of an object that has lost its last owner -/
  | reclaim (o : Object)
  deriving DecidableEq, Repr, Inhabited

/-- What running code is given: the answers to its requests, and a bound on the number of
instructions of one run. -/
structure Engine where
  fuel : Nat
  perform : Request → Run World Value

end Resumable
