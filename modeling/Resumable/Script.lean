import Resumable.Value

set_option autoImplicit false

/-!
# Scripts

Two sorts of object may be supplied from outside instead of being assembled: the body of a
generator, and an iterator.  Both are scripts, that is data: an expression says how to make a
value, an item says what one step of an iterator does, an action says what a body does to its
frame or how its run ends.

Variables are looked up when an expression is evaluated, not when the script is written.  The
items of an iterator are likewise evaluated when they are reached.
-/

namespace Resumable

/-! ## Expressions -/

/-- What an expression can read from the run of the body that it stands in. -/
inductive BodyField where
  /-- the value sent in, which is taken -/
  | input
  /-- the result of a finished delegation, which is taken -/
  | result
  /-- the closure of the generator -/
  | closure
  /-- a new list of the results of this run's calls -/
  | callResults
  /-- the resume point -/
  | position
  /-- a local variable, absent when there is none of that index -/
  | localVariable (index : Nat)
  deriving DecidableEq, Repr, Inhabited

/-- The operations that a script can call on a generator. -/
inductive Method where
  | next
  | nextOrEnd
  | send
  | throw
  | close
  | state
  | running
  | yieldFrom
  | frame
  deriving DecidableEq, Repr, Inhabited

/-- How many arguments an operation takes. -/
def Method.arity : Method → Nat
  | .send => 1
  | .throw => 3
  | .next | .nextOrEnd | .close | .state | .running | .yieldFrom | .frame => 0

mutual

/-- How to make a value. -/
inductive Expr where
  | none
  | bool (b : Bool)
  | int (i : Int64)
  | str (s : String)
  /-- a new list -/
  | list (items : List Expr)
  /-- the value of a variable, shared and not copied -/
  | variable (name : String)
  | exceptionType (kind : ExceptionKind)
  /-- an exception, with the traceback it is given and the places it then escapes through -/
  | exception (kind : ExceptionKind) (args : List Expr) (traceback : Option (List TraceEntry))
      (escaped : List TraceEntry)
  | traceback (entries : List TraceEntry)
  /-- a new iterator over a list -/
  | listIterator (source : Expr)
  /-- a new iterator that follows a script -/
  | scripted (name : String) (items : List Item) (closing : Option Response) (echoes : Bool)
  /-- what the running body provides -/
  | field (f : BodyField)

/-- One step of a scripted iterator. -/
inductive Item where
  /-- there is no item this time -/
  | stop
  | give (r : Response)

/-- What a method of a scripted iterator does. -/
inductive Response where
  /-- gives the value -/
  | value (e : Expr)
  /-- raises the value -/
  | raise (e : Expr)
  /-- calls an operation of a generator and gives its result -/
  | call (c : Call)

/-- A call of an operation on the generator that a variable holds. -/
inductive Call where
  | mk (generator : String) (method : Method) (args : List Expr)

end

instance : Inhabited Expr := ⟨.none⟩
instance : Inhabited Item := ⟨.stop⟩
instance : Inhabited Response := ⟨.value .none⟩
instance : Inhabited Call := ⟨.mk "" .next []⟩

/-- An iterator that follows a script: what is left of its items, what closing it does (nothing
is there to close when absent), and whether it gives back what is sent to it. -/
structure ScriptedIterator where
  name : String
  items : List Item
  closing : Option Response
  echoes : Bool
  deriving Inhabited

/-! ## Bodies -/

/-- One action of a scripted body.  The first group acts on the frame, the second ends the run. -/
inductive Action where
  /-- moves the resume point -/
  | moveTo (position : Int)
  /-- marks the frame as finished -/
  | finish
  | setLocal (index : Nat) (e : Expr)
  | push (e : Expr)
  | setDelegate (e : Expr)
  | clearDelegate
  /-- leaves an exception to be raised at the next resume -/
  | setPending (e : Expr)
  | setInput (e : Expr)
  /-- performs a call and keeps its result -/
  | call (c : Call)
  /-- steps past this entry of the body and suspends with a value -/
  | yield (e : Expr)
  /-- suspends with a value and stays at this entry -/
  | yieldInPlace (e : Expr)
  /-- finishes with a value -/
  | return (e : Expr)
  /-- reports a value as returned without marking the frame as finished -/
  | returnInPlace (e : Expr)
  /-- reports that the delegate ran out -/
  | exhaust (e : Expr)
  | raise (e : Expr)
  /-- abandons the computation -/
  | abort
  /-- one step of delegation to the current delegate, or to an iterator over the first local -/
  | delegate
  deriving Inhabited

/-- What a scripted body does when it is resumed with an exception. -/
inductive PendingRule where
  /-- finishes and raises the exception -/
  | finish
  /-- raises the exception without marking the frame as finished -/
  | escape
  /-- steps on and yields the exception -/
  | yield
  /-- finishes and returns the exception -/
  | return
  /-- reports that the delegate ran out with the exception as its result -/
  | exhaust
  /-- finishes and returns another value -/
  | returnValue (e : Expr)
  /-- finishes and raises another exception -/
  | raise (e : Expr)
  /-- goes on as if nothing had been raised -/
  | ignore
  deriving Inhabited

/-- A body given as a script: the entry at the resume point is what a run carries out. -/
structure Script where
  entries : List (List Action)
  pending : PendingRule
  deriving Inhabited

end Resumable
