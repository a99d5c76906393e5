import Resumable.Code.Assembler
import Resumable.Script
import Resumable.Thread

set_option autoImplicit false

/-!
# Commands

What a session can be told to do: set and remove variables, make code and generators, drive
generators and iterators, change and look at frames, and look at values.  Operands are expressions;
generators, frames and iterators are designated by expressions too, and mostly by variables.
-/

namespace Resumable.Session

open Resumable.Code

/-- A change to a frame from outside. -/
inductive FrameEdit where
  | position (n : Int)
  | finish
  | locals (values : List Expr)
  /-- the value stack, the lowest value first -/
  | stack (values : List Expr)
  /-- the handlers with their stack depths, the outermost first -/
  | blocks (blocks : List (Nat × Nat))
  | delegate (value : Expr)
  | pending (value : Expr)
  | input (value : Expr)
  | delegation (value : Expr)
  deriving Inhabited

/-- What can be taken out of a frame. -/
inductive FrameTaking where
  | input
  | result
  deriving DecidableEq, Repr, Inhabited

/-- The ways to make an exception without a type and a value. -/
inductive Construction where
  | stopIteration
  | stopIterationWith (value : Expr)
  | generatorExit
  | typeError (message : String)
  | valueError (message : String)
  | runtimeError (message : String)
  | recursionError
  | attributeError (typeName attr : String)
  | nameError (message : String)
  | systemError (message : String)
  deriving Inhabited

/-- An operation on a generator whose result is a value or an exception. -/
inductive Drive where
  | next
  | send (value : Expr)
  | throw (type : Expr) (value traceback : Option Expr)
  | close
  | getAttribute (name : String)
  deriving Inhabited

/-- One command. -/
inductive Command where
  /-- sets a variable -/
  | bind (name : String) (value : Expr)
  /-- removes a variable -/
  | unbind (name : String)
  /-- assembles a code object into a variable -/
  | assemble (name : String) (source : Source)
  /-- assembles a program and shows it -/
  | disassemble (source : Source)
  /-- makes a generator from the code object in a variable -/
  | makeGenerator (name code : String) (args : List Expr) (closure : Expr)
  /-- makes a code object from a script -/
  | makeScript (name codeName filename : String) (script : Script)
  /-- makes a frame for the code object in a variable -/
  | makeFrame (name code : String) (args : List Expr)
  /-- drives the generator in a variable; the outcome may be kept in another -/
  | drive (generator : String) (operation : Drive) (keep : Option String)
  | nextOrEnd (generator : String)
  /-- asks a generator for an iterator over it -/
  | iter (generator : String)
  /-- pulls up to so many items from a generator -/
  | collect (generator : String) (max : Nat)
  | info (generator : String)
  | showFrame (value : Expr)
  | editFrame (value : Expr) (edit : FrameEdit)
  | takeFrom (value : Expr) (taking : FrameTaking)
  /-- resumes the code of a frame on its own -/
  | runFrame (value closure : Expr) (pending : Option Expr)
  | referents (value : Expr)
  /-- presents what an object refers to until so many values were seen -/
  | traverse (value : Expr) (enough : Option Nat)
  | refers (value target : Expr)
  | inspect (value : Expr)
  | show (value : Expr)
  | compare (a b : Expr)
  | describeCode (value : Expr)
  | normalize (type : Expr) (value : Option Expr) (keep : Option String)
  | construct (construction : Construction)
  | describeException (value : Expr)
  | describeKind (kind : ExceptionKind)
  /-- shows an instruction, and the same instruction aimed elsewhere -/
  | describeInstruction (i : Instruction) (offset : Option Int)
  | getIter (value : Expr) (keep : Option String)
  | closeIter (value : Expr)
  | iteratorNext (of : Expr)
  | iteratorSend (of value : Expr)
  | iteratorClose (of : Expr)
  | listPush (of value : Expr)
  | listPop (of : Expr)
  | listClear (of : Expr)
  /-- installs a new thread -/
  | install (limit : Nat) (sink : Sink)
  | thread
  /-- takes a level of the current thread and holds it -/
  | enter
  /-- gives back the level that was taken last -/
  | leave
  | writeLine (line : String)
  deriving Inhabited

end Resumable.Session
