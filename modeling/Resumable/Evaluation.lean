import Resumable.Lifecycle

set_option autoImplicit false

/-!
# Evaluating expressions and calls

An expression makes a value of its own: what it takes from elsewhere is shared, what it makes is
new.  Expressions are evaluated from left to right.  What a running body provides is left to the
caller, because only a body has it; elsewhere there is nothing to provide.
-/

namespace Resumable

variable {τ : Type}

/-- How a computation provides what an expression reads from a running body. -/
abbrev FieldReader (τ : Type) : Type := BodyField → Run (τ × World) Value

/-- Outside of a body there is nothing to read. -/
def noFields : FieldReader τ := fun _ => pure .none

namespace World

/-- Makes a list. -/
def makeList (items : List Value) : Run World Value := fun w =>
  let (r, w) := w.newList items
  .ok (.list r) w

/-- Makes an iterator. -/
def makeIterator (i : Iterator) : Run World Value := fun w =>
  let (r, w) := w.newIterator i
  .ok (.iterator r) w

/-- The value of a variable. -/
def lookUp (name : String) : Run World Value := do
  let v := ((← get).names.get? name).getD .none
  share v
  return v

end World

mutual

/-- Makes the value of an expression. -/
def Expr.eval (fields : FieldReader τ) : Expr → Run (τ × World) Value
  | .none => pure .none
  | .bool b => pure (.bool b)
  | .int i => pure (.int i)
  | .str s => pure (.str s)
  | .list items => do
      let vs ← Expr.evalAll fields items
      Run.shared (World.makeList vs)
  | .variable name => Run.shared (World.lookUp name)
  | .exceptionType kind => pure (.exceptionType kind)
  | .exception kind args tb escaped => do
      let vs ← Expr.evalAll fields args
      let e : Exception := ⟨kind, vs, tb.map Traceback.empty.pushAll⟩
      return (escaped.foldl Exception.pushEntry e).toValue
  | .traceback entries => pure (.traceback (Traceback.empty.pushAll entries))
  | .listIterator source => do
      match ← source.eval fields with
      | .list r => Run.shared (World.makeIterator (.list r 0))
      | other => return other
  | .scripted name items closing echoes =>
      Run.shared (World.makeIterator (.scripted ⟨name, items, closing, echoes⟩))
  | .field f => fields f

/-- Makes the values of expressions, from left to right. -/
def Expr.evalAll (fields : FieldReader τ) : List Expr → Run (τ × World) (List Value)
  | [] => pure []
  | x :: xs => do
      let v ← x.eval fields
      let vs ← Expr.evalAll fields xs
      return v :: vs

end

namespace Engine

/-- Calls an operation on a generator.  Arguments that are left out are absent. -/
def call (e : Engine) (g : GeneratorRef) (method : Method) (args : List Value) :
    Run World Value := do
  match method with
  | .next => e.next g
  | .nextOrEnd => return (← e.nextOrEnd g).getD (.str "<exhausted>")
  | .send => e.send g (args.head?.getD .none)
  | .throw => e.throw g ⟨args.head?.getD .none, args[1]?, args[2]?⟩
  | .close => e.close g
  | .state => return .str ((← get).stateOf g).name
  | .running => return .bool ((← get).generator g).running
  | .yieldFrom => do
      let v := ((← get).delegateOf g).getD .none
      World.share v
      return v
  | .frame => return .bool ((← get).generator g).frame.isSome

/-- Calls an operation on a generator; an exception that it raises becomes its value. -/
def callResult (e : Engine) (g : GeneratorRef) (method : Method) (args : List Value) :
    Run World Value := do
  match ← Run.attempt (e.call g method args) with
  | .ok v => return v
  | .error exception => return exception.toValue

/-- Performs a call; an exception that it raises becomes its value.  Arguments that the operation
does not take are forgotten after the call. -/
def performCall (e : Engine) (fields : FieldReader τ) (c : Call) : Run (τ × World) Value := do
  let ⟨name, method, args⟩ := c
  let target ← Run.shared (World.lookUp name)
  let args ← Expr.evalAll fields args
  Run.shared <| e.owning target do
    match target with
    | .generator g =>
        Run.ensuring (e.callResult g method args) (e.releaseAll (args.drop method.arity))
    | _ =>
        e.releaseAll args
        return .none

/-- Raises the exception that a value stands for, and forgets the value. -/
def raiseValue {α : Type} (e : Engine) (v : Value) : Run World α :=
  e.owning v do
    let exception ← World.exceptionOf v
    Run.raise exception

/-- What a scripted method gives or raises. -/
def respond (e : Engine) (fields : FieldReader τ) : Response → Run (τ × World) Value
  | .value x => x.eval fields
  | .raise x => do
      let v ← x.eval fields
      Run.shared (e.raiseValue v)
  | .call c => e.performCall fields c

end Engine

end Resumable
