import Resumable.Traceback
import Resumable.ExceptionKind

set_option autoImplicit false

/-!
# Pictures

A picture is a value drawn for a reader: lists written out, objects shown by what they are called.
An object that some variable holds is drawn with the name of that variable.  A list found inside
itself is drawn as a cycle mark.
-/

namespace Resumable

/-- A value drawn for a reader.  `known` is the first variable that holds the same object. -/
inductive Picture where
  | none
  | bool (b : Bool)
  | int (i : Int64)
  | str (s : String)
  | list (items : List Picture) (known : Option String)
  | cycle
  /-- an iterator, without a type name while one of its methods runs -/
  | iterator (typeName : Option String) (known : Option String)
  | generator (name : String) (known : Option String)
  /-- a frame, without a name while it runs -/
  | frame (name : Option String) (known : Option String)
  | code (name : String) (known : Option String)
  | exceptionType (kind : ExceptionKind)
  | exception (kind : ExceptionKind) (args : List Picture) (traceback : Option Traceback)
  | traceback (t : Traceback)
  deriving Repr, Inhabited

end Resumable
