import Resumable.Code.Program

set_option autoImplicit false

/-!
# The assembler

Builds a program one instruction at a time.  Constants and names of local variables are interned:
asking again for one that is there gives the index it has.  Jumps are aimed at labels, which are
issued unbound, bound to the next instruction at most once, and turned into distances at the end.

The first fault of a `bind` is kept and reported by `assemble`; without one, the first jump at a
label that was never bound is the fault.
-/

namespace Resumable.Code

/-- A place in a program under construction, by the number it was issued with. -/
abbrev Label : Type := Nat

/-- What can be wrong with the labels of a program. -/
inductive AssemblyError where
  /-- a label is used, or bound, that was never issued or never bound -/
  | unboundLabel (label : Label)
  /-- a label is bound a second time -/
  | duplicateLabel (label : Label)
  deriving DecidableEq, Repr, Inhabited

namespace AssemblyError

/-- The error as text. -/
def message : AssemblyError → String
  | unboundLabel label => "label " ++ toString label ++ " is used but never bound"
  | duplicateLabel label => "label " ++ toString label ++ " is bound more than once"

end AssemblyError

/-- An instruction on its way into a program, with the label that it is aimed at. -/
structure Emission where
  instruction : Instruction
  target : Option Label
  deriving DecidableEq, Repr, Inhabited

/-- A program under construction. -/
structure Assembler where
  name : String
  filename : String
  emitted : List Emission
  localNames : List String
  argCount : Nat
  constants : List Constant
  /-- the position that each issued label is bound to -/
  labels : List (Option Nat)
  /-- the first fault met while binding -/
  fault : Option AssemblyError
  deriving DecidableEq, Repr, Inhabited

/-- The index of a key in a list, and the list with the key added at the end if it was missing. -/
def intern {α : Type} [BEq α] (xs : List α) (x : α) : Nat × List α :=
  match xs.findIdx? (· == x) with
  | some index => (index, xs)
  | none => (xs.length, xs ++ [x])

theorem getElem?_intern {α : Type} [BEq α] [LawfulBEq α] (xs : List α) (x : α) :
    (intern xs x).2[(intern xs x).1]? = some x := by
  unfold intern
  split
  · next index h =>
      obtain ⟨hlt, hp, _⟩ := List.findIdx?_eq_some_iff_getElem.1 h
      simp only [beq_iff_eq] at hp
      simp [hlt, hp]
  · simp

namespace Assembler

/-- An empty program whose first local variables are the named arguments. -/
def new (name : String) (args : List String) (filename : String) : Assembler where
  name := name
  filename := filename
  emitted := []
  localNames := args
  argCount := args.length
  constants := []
  labels := []
  fault := none

/-- Issues a label. -/
def label (a : Assembler) : Label × Assembler :=
  (a.labels.length, { a with labels := a.labels ++ [none] })

/-- Keeps the first fault. -/
def fail (a : Assembler) (e : AssemblyError) : Assembler :=
  { a with fault := some (a.fault.getD e) }

/-- Binds a label to the next instruction. -/
def bind (a : Assembler) (label : Label) : Assembler :=
  match a.labels[label]? with
  | some none => { a with labels := a.labels.set label (some a.emitted.length) }
  | some (some _) => a.fail (.duplicateLabel label)
  | none => a.fail (.unboundLabel label)

/-- Appends an instruction as it is. -/
def emit (a : Assembler) (i : Instruction) : Assembler :=
  { a with emitted := a.emitted ++ [⟨i, none⟩] }

/-- Appends a jump aimed at a label. -/
def emitJump (a : Assembler) (i : Instruction) (label : Label) : Assembler :=
  { a with emitted := a.emitted ++ [⟨i, some label⟩] }

/-- The index of a constant. -/
def constant (a : Assembler) (c : Constant) : Nat × Assembler :=
  let (index, constants) := intern a.constants c
  (index, { a with constants := constants })

/-- The index of a local variable. -/
def variableIndex (a : Assembler) (name : String) : Nat × Assembler :=
  let (index, names) := intern a.localNames name
  (index, { a with localNames := names })

/-- Appends an instruction that pushes a constant. -/
def loadConst (a : Assembler) (c : Constant) : Assembler :=
  let (index, a) := a.constant c
  a.emit (.loadConst index)

/-- Appends an instruction that pushes a local variable. -/
def loadFast (a : Assembler) (name : String) : Assembler :=
  let (index, a) := a.variableIndex name
  a.emit (.loadFast index)

/-- Appends an instruction that pops into a local variable. -/
def storeFast (a : Assembler) (name : String) : Assembler :=
  let (index, a) := a.variableIndex name
  a.emit (.storeFast index)

/-- The position that a label is bound to. -/
def position? (a : Assembler) (label : Label) : Option Nat := a.labels[label]?.join

/-- The instruction at `index` with its label turned into a distance. -/
def resolve (a : Assembler) (index : Nat) (e : Emission) : Except AssemblyError Instruction :=
  match e.target with
  | none => .ok e.instruction
  | some label =>
      match a.position? label with
      | none => .error (.unboundLabel label)
      | some position => .ok (e.instruction.withOffset ((position : Int) - ((index : Int) + 1)))

/-- The instructions from `index` on with all labels turned into distances. -/
def resolveFrom (a : Assembler) (index : Nat) :
    List Emission → Except AssemblyError (List Instruction)
  | [] => .ok []
  | e :: rest =>
      match a.resolve index e with
      | .error fault => .error fault
      | .ok i =>
          match a.resolveFrom (index + 1) rest with
          | .error fault => .error fault
          | .ok is => .ok (i :: is)

/-- The finished program. -/
def assemble (a : Assembler) : Except AssemblyError Program :=
  match a.fault with
  | some fault => .error fault
  | none =>
      match a.resolveFrom 0 a.emitted with
      | .error fault => .error fault
      | .ok instructions => .ok ⟨instructions, a.localNames, a.argCount, a.constants⟩

end Assembler

/-! ## Assembling a list of directives -/

/-- One call of the assembler. -/
inductive Directive where
  | emit (i : Instruction)
  | loadConst (c : Constant)
  | loadFast (name : String)
  | storeFast (name : String)
  | constant (c : Constant)
  | variableIndex (name : String)
  | label
  | bind (label : Label)
  | jump (label : Label)
  | jumpIfFalse (label : Label)
  | forIter (label : Label)
  | setupExcept (label : Label)
  | jumpIfNotExcMatch (kind : ExceptionKind) (label : Label)
  deriving DecidableEq, Repr, Inhabited

namespace Assembler

/-- Carries out one directive. -/
def apply (a : Assembler) : Directive → Assembler
  | .emit i => a.emit i
  | .loadConst c => a.loadConst c
  | .loadFast name => a.loadFast name
  | .storeFast name => a.storeFast name
  | .constant c => (a.constant c).2
  | .variableIndex name => (a.variableIndex name).2
  | .label => a.label.2
  | .bind label => a.bind label
  | .jump label => a.emitJump (.jump 0) label
  | .jumpIfFalse label => a.emitJump (.jumpIfFalse 0) label
  | .forIter label => a.emitJump (.forIter 0) label
  | .setupExcept label => a.emitJump (.setupExcept 0) label
  | .jumpIfNotExcMatch kind label => a.emitJump (.jumpIfNotExcMatch kind 0) label

/-- Carries out directives in order. -/
def applyAll (a : Assembler) (ds : List Directive) : Assembler := ds.foldl apply a

theorem applyAll_append (a : Assembler) (ds es : List Directive) :
    a.applyAll (ds ++ es) = (a.applyAll ds).applyAll es := List.foldl_append

end Assembler

/-- A program in source form: its name, its arguments, where it comes from, the number of labels
issued at the start, and the directives. -/
structure Source where
  name : String
  args : List String
  filename : String
  labels : Nat
  directives : List Directive
  deriving DecidableEq, Repr, Inhabited

namespace Source

/-- The file that assembled code names when none is given. -/
def defaultFilename : String := "<bytecode>"

/-- The assembler after all directives of the source. -/
def assembler (s : Source) : Assembler :=
  (Assembler.new s.name s.args s.filename).applyAll
    (List.replicate s.labels .label ++ s.directives)

end Source

end Resumable.Code
