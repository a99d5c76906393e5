import Resumable.ExceptionKind
import Resumable.Traceback

set_option autoImplicit false

/-!
# Values and exceptions

A value is data (`none`, booleans, 64-bit integers, text, exception classes, exceptions,
tracebacks) or a reference to an object that has identity: a list, an iterator, a generator, a
frame, or a code object.  References are typed, one type for each sort of object, so that one can
never stand for another.

An exception carries its class, its arguments and, once it has escaped from a frame, a traceback.
As a value it is held by content: two copies of one exception cannot be told apart.
-/

namespace Resumable

/-! ## References -/

/-- A list object. -/
@[ext] structure ListRef where
  index : Nat
  deriving DecidableEq, Repr, Inhabited

/-- An iterator object other than a generator. -/
@[ext] structure IteratorRef where
  index : Nat
  deriving DecidableEq, Repr, Inhabited

/-- A generator object. -/
@[ext] structure GeneratorRef where
  index : Nat
  deriving DecidableEq, Repr, Inhabited

/-- A frame object. -/
@[ext] structure FrameRef where
  index : Nat
  deriving DecidableEq, Repr, Inhabited

/-- A code object. -/
@[ext] structure CodeRef where
  index : Nat
  deriving DecidableEq, Repr, Inhabited

/-! ## Values -/

/-- What variables, lists, frames and exceptions hold. -/
inductive Value where
  | none
  | bool (b : Bool)
  | int (i : Int64)
  | str (s : String)
  | list (r : ListRef)
  | iterator (r : IteratorRef)
  | generator (r : GeneratorRef)
  | frame (r : FrameRef)
  | code (r : CodeRef)
  | exceptionType (kind : ExceptionKind)
  | exception (kind : ExceptionKind) (args : List Value) (traceback : Option Traceback)
  | traceback (t : Traceback)
  deriving Repr, Inhabited

/-! ### Deciding whether two values are the same -/

namespace Value

mutual

/-- Whether two values are the same in every part. -/
def same : Value → Value → Bool
  | none, none => true
  | bool a, bool b => a == b
  | int a, int b => a == b
  | str a, str b => a == b
  | list a, list b => a == b
  | iterator a, iterator b => a == b
  | generator a, generator b => a == b
  | frame a, frame b => a == b
  | code a, code b => a == b
  | exceptionType a, exceptionType b => a == b
  | exception a as t, exception b bs u => a == b && sameAll as bs && t == u
  | traceback t, traceback u => t == u
  | _, _ => false

/-- Whether two lists hold the same values in the same order. -/
def sameAll : List Value → List Value → Bool
  | [], [] => true
  | a :: as, b :: bs => same a b && sameAll as bs
  | _, _ => false

end

mutual

theorem same_iff : (a b : Value) → (same a b = true ↔ a = b)
  | none, b => by cases b <;> simp [same]
  | bool _, b => by cases b <;> simp [same]
  | int _, b => by cases b <;> simp [same]
  | str _, b => by cases b <;> simp [same]
  | list _, b => by cases b <;> simp [same]
  | iterator _, b => by cases b <;> simp [same]
  | generator _, b => by cases b <;> simp [same]
  | frame _, b => by cases b <;> simp [same]
  | code _, b => by cases b <;> simp [same]
  | exceptionType _, b => by cases b <;> simp [same]
  | exception _ as _, b => by cases b <;> simp [same, sameAll_iff as, and_assoc]
  | traceback _, b => by cases b <;> simp [same]

theorem sameAll_iff : (as bs : List Value) → (sameAll as bs = true ↔ as = bs)
  | [], [] => by simp [sameAll]
  | [], _ :: _ => by simp [sameAll]
  | _ :: _, [] => by simp [sameAll]
  | a :: as, b :: bs => by simp [sameAll, same_iff a b, sameAll_iff as bs]

end

instance : DecidableEq Value := fun a b => decidable_of_iff _ (same_iff a b)

end Value

/-- A raised exception. -/
structure Exception where
  kind : ExceptionKind
  args : List Value
  traceback : Option Traceback
  deriving DecidableEq, Repr, Inhabited

/-- The sort of a value, as a type test reports it. -/
inductive ValueType where
  | type
  | none
  | bool
  | int
  | str
  | list
  | listIterator
  | iterator
  | generator
  | frame
  | code
  | traceback
  | exception
  deriving DecidableEq, Repr, Inhabited

namespace ValueType

/-- The name of the sort. -/
def name : ValueType → String
  | type => "type"
  | none => "NoneType"
  | bool => "bool"
  | int => "int"
  | str => "str"
  | list => "list"
  | listIterator => "list_iterator"
  | iterator => "iterator"
  | generator => "generator"
  | frame => "frame"
  | code => "code"
  | traceback => "traceback"
  | exception => "Exception"

end ValueType

namespace Value

/-- The sort of the value. -/
def type : Value → ValueType
  | none => .none
  | bool _ => .bool
  | int _ => .int
  | str _ => .str
  | list _ => .list
  | iterator _ => .iterator
  | generator _ => .generator
  | frame _ => .frame
  | code _ => .code
  | exceptionType _ => .type
  | exception _ _ _ => .exception
  | traceback _ => .traceback

/-- Whether the value is the absent value. -/
def isNone : Value → Bool
  | none => true
  | _ => false

/-- The integer that the value is, if it is one. -/
def asInt : Value → Option Int64
  | int i => some i
  | _ => .none

/-- The generator that the value is, if it is one. -/
def asGenerator : Value → Option GeneratorRef
  | generator g => some g
  | _ => .none

/-- The exception that the value is, if it is one. -/
def asException : Value → Option Exception
  | exception kind args tb => some ⟨kind, args, tb⟩
  | _ => .none

/-- The exception class that the value stands for when it is raised. -/
def exceptionKind : Value → Option ExceptionKind
  | exceptionType kind => some kind
  | exception kind _ _ => some kind
  | _ => .none

/-- Identity: small data by content, objects by reference.  Text, exceptions and tracebacks have
no identity, so none of them is identical to anything. -/
def sameIdentity : Value → Value → Bool
  | none, none => true
  | bool a, bool b => a == b
  | int a, int b => a == b
  | list a, list b => a == b
  | iterator a, iterator b => a == b
  | generator a, generator b => a == b
  | frame a, frame b => a == b
  | code a, code b => a == b
  | exceptionType a, exceptionType b => a == b
  | _, _ => false

theorem isNone_iff (v : Value) : v.isNone = true ↔ v = none := by
  cases v <;> simp [isNone]

theorem sameIdentity_comm (a b : Value) : a.sameIdentity b = b.sameIdentity a := by
  cases a <;> cases b <;> simp only [sameIdentity, BEq.comm]

end Value

/-! ## Exceptions -/

namespace Exception

/-- The exception as a value. -/
def toValue (e : Exception) : Value := .exception e.kind e.args e.traceback

/-- An exception of the given class that has not escaped from anything yet. -/
def new (kind : ExceptionKind) (args : List Value) : Exception := ⟨kind, args, none⟩

/-- An exception without arguments. -/
def newEmpty (kind : ExceptionKind) : Exception := new kind []

/-- An exception whose only argument is a text. -/
def withMessage (kind : ExceptionKind) (message : String) : Exception := new kind [.str message]

/-- The end of an iteration. -/
def stopIteration : Exception := newEmpty .stopIteration

/-- The end of an iteration that returned a value; returning `none` leaves no argument. -/
def stopIterationWith (v : Value) : Exception :=
  if v.isNone then stopIteration else new .stopIteration [v]

/-- The request to finish. -/
def generatorExit : Exception := newEmpty .generatorExit

/-- A value is of the wrong type. -/
def typeError (message : String) : Exception := withMessage .typeError message

/-- A value, or the moment, is wrong. -/
def valueError (message : String) : Exception := withMessage .valueError message

/-- A rule that code has to keep was broken. -/
def runtimeError (message : String) : Exception := withMessage .runtimeError message

/-- A name has no value. -/
def nameError (message : String) : Exception := withMessage .nameError message

/-- The code itself is faulty. -/
def systemError (message : String) : Exception := withMessage .systemError message

/-- The refusal to nest one more resumption. -/
def recursionError : Exception := withMessage .recursionError "maximum recursion depth exceeded"

/-- An object of the named sort lacks an attribute. -/
def attributeError (typeName attr : String) : Exception :=
  withMessage .attributeError
    ("'" ++ typeName ++ "' object has no attribute '" ++ attr ++ "'")

/-- Whether a handler for `kind` catches the exception. -/
def isCaughtBy (e : Exception) (kind : ExceptionKind) : Bool := e.kind.isSubclassOf kind

/-- The value that a finished iteration returned. -/
def stopValue (e : Exception) : Value := e.args.head?.getD .none

/-- Gives the exception a traceback in place of the one it has. -/
def setTraceback (e : Exception) (t : Traceback) : Exception := { e with traceback := some t }

/-- Records a frame that the exception escapes from. -/
def pushEntry (e : Exception) (entry : TraceEntry) : Exception :=
  { e with traceback := some ((e.traceback.getD .empty).pushOuter entry) }

/-! ### What a throw raises -/

/-- Why a pair of a type and a value is no exception. -/
inductive Fault where
  /-- an exception comes with a value of its own -/
  | separateValue
  /-- the type is neither an exception nor an exception class -/
  | notAnException (type : Value)
  deriving DecidableEq, Repr, Inhabited

/-- The exception that a type and a value stand for; a value that is `none` counts as absent.  A
class alone is raised without arguments.  A class with an exception of that class raises the
exception, and with any other value raises the class with the value as its argument.  An exception
is raised as it is, and may not come with a value. -/
def normalize (type : Value) (value : Option Value) : Except Fault Exception :=
  match type, value.filter (!·.isNone) with
  | .exceptionType kind, none => .ok (newEmpty kind)
  | .exceptionType kind, some (.exception k args tb) =>
      if k.isSubclassOf kind then .ok ⟨k, args, tb⟩ else .ok (new kind [.exception k args tb])
  | .exceptionType kind, some arg => .ok (new kind [arg])
  | .exception _ _ _, some _ => .error .separateValue
  | .exception kind args tb, none => .ok ⟨kind, args, tb⟩
  | other, _ => .error (.notAnException other)

theorem normalize_toValue (e : Exception) : normalize e.toValue none = .ok e := rfl

theorem normalize_exceptionType (kind : ExceptionKind) :
    normalize (.exceptionType kind) none = .ok (newEmpty kind) := rfl

theorem asException_toValue (e : Exception) : e.toValue.asException = some e := rfl

theorem stopValue_stopIterationWith (v : Value) : (stopIterationWith v).stopValue = v := by
  unfold stopIterationWith
  split
  · next h => rw [(Value.isNone_iff v).1 h]; rfl
  · rfl

end Exception

end Resumable
