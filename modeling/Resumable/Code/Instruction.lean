import Resumable.ExceptionKind

set_option autoImplicit false

/-!
# Instructions

The instructions of a stack machine whose frames can be suspended.  Operands are indices into a
constant pool or into the local variables, exception classes, and jump distances.  A distance is
counted from the instruction after the jump, so `jump 0` does nothing and `jump (-1)` repeats
itself.
-/

namespace Resumable.Code

/-- One instruction. -/
inductive Instruction where
  /-- pushes an entry of the constant pool -/
  | loadConst (index : Nat)
  /-- pushes a local variable -/
  | loadFast (index : Nat)
  /-- pops into a local variable -/
  | storeFast (index : Nat)
  /-- pushes the closure of the generator -/
  | loadClosure
  /-- pops and forgets -/
  | popTop
  /-- pops two integers or two texts and pushes their sum -/
  | add
  /-- pops two integers and pushes their difference -/
  | sub
  /-- pops two integers or two texts and pushes whether the lower one is less -/
  | lessThan
  /-- jumps -/
  | jump (offset : Int)
  /-- pops and jumps if the value is falsy -/
  | jumpIfFalse (offset : Int)
  /-- pops an iterable and pushes an iterator over it -/
  | getIter
  /-- pushes the next item of the iterator on top; when there is none, pops it and jumps -/
  | forIter (offset : Int)
  /-- pops a value and a list below it, and appends the value to the list -/
  | listAppend
  /-- pops a value and suspends, producing it; the value sent at the next resume is pushed -/
  | yieldValue
  /-- pops an iterable and delegates to an iterator over it, then pushes what that returned -/
  | yieldFrom
  /-- installs a handler -/
  | setupExcept (offset : Int)
  /-- removes the innermost handler -/
  | popBlock
  /-- jumps unless the value on top is an exception of the given class -/
  | jumpIfNotExcMatch (kind : ExceptionKind) (offset : Int)
  /-- pops an exception or an exception class and raises it -/
  | raise
  /-- pops a value and finishes with it -/
  | returnValue
  deriving DecidableEq, Repr, Inhabited

namespace Instruction

/-- The same jump over another distance; an instruction that does not jump is unchanged. -/
def withOffset (i : Instruction) (offset : Int) : Instruction :=
  match i with
  | jump _ => jump offset
  | jumpIfFalse _ => jumpIfFalse offset
  | forIter _ => forIter offset
  | setupExcept _ => setupExcept offset
  | jumpIfNotExcMatch kind _ => jumpIfNotExcMatch kind offset
  | other => other

/-- The distance of a jump, a loop or a handler. -/
def offset? : Instruction → Option Int
  | jump offset => some offset
  | jumpIfFalse offset => some offset
  | forIter offset => some offset
  | setupExcept offset => some offset
  | jumpIfNotExcMatch _ offset => some offset
  | _ => none

/-- The instruction as it stands in a listing. -/
def text : Instruction → String
  | loadConst index => "LOAD_CONST " ++ toString index
  | loadFast index => "LOAD_FAST " ++ toString index
  | storeFast index => "STORE_FAST " ++ toString index
  | loadClosure => "LOAD_CLOSURE"
  | popTop => "POP_TOP"
  | add => "ADD"
  | sub => "SUB"
  | lessThan => "LESS_THAN"
  | jump offset => "JUMP " ++ toString offset
  | jumpIfFalse offset => "JUMP_IF_FALSE " ++ toString offset
  | getIter => "GET_ITER"
  | forIter offset => "FOR_ITER " ++ toString offset
  | listAppend => "LIST_APPEND"
  | yieldValue => "YIELD_VALUE"
  | yieldFrom => "YIELD_FROM"
  | setupExcept offset => "SETUP_EXCEPT " ++ toString offset
  | popBlock => "POP_BLOCK"
  | jumpIfNotExcMatch kind offset =>
      "JUMP_IF_NOT_EXC_MATCH " ++ kind.name ++ " " ++ toString offset
  | raise => "RAISE"
  | returnValue => "RETURN_VALUE"

/-- The instruction as a constructor applied to its operands.  The sort of an index is spelled
out, so that a constant and a local variable of one number read differently. -/
def debugText : Instruction → String
  | loadConst index => "LoadConst(ConstantMarker(" ++ toString index ++ "))"
  | loadFast index => "LoadFast(LocalMarker(" ++ toString index ++ "))"
  | storeFast index => "StoreFast(LocalMarker(" ++ toString index ++ "))"
  | loadClosure => "LoadClosure"
  | popTop => "PopTop"
  | add => "Add"
  | sub => "Sub"
  | lessThan => "LessThan"
  | jump offset => "Jump(" ++ toString offset ++ ")"
  | jumpIfFalse offset => "JumpIfFalse(" ++ toString offset ++ ")"
  | getIter => "GetIter"
  | forIter offset => "ForIter(" ++ toString offset ++ ")"
  | listAppend => "ListAppend"
  | yieldValue => "YieldValue"
  | yieldFrom => "YieldFrom"
  | setupExcept offset => "SetupExcept(" ++ toString offset ++ ")"
  | popBlock => "PopBlock"
  | jumpIfNotExcMatch kind offset =>
      "JumpIfNotExcMatch(" ++ kind.name ++ ", " ++ toString offset ++ ")"
  | raise => "Raise"
  | returnValue => "ReturnValue"

theorem withOffset_offset (i : Instruction) (offset : Int) (h : i.offset? = some offset) :
    i.withOffset offset = i := by
  cases i <;> simp_all [offset?, withOffset]

theorem withOffset_of_offset_none (i : Instruction) (offset : Int) (h : i.offset? = none) :
    i.withOffset offset = i := by
  cases i <;> simp_all [offset?, withOffset]

theorem offset_withOffset (i : Instruction) (offset : Int) :
    (i.withOffset offset).offset? = i.offset?.map fun _ => offset := by
  cases i <;> rfl

end Instruction

end Resumable.Code
