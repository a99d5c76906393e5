import Resumable.Evaluation

set_option autoImplicit false

/-!
# Iteration

The iterator protocol over lists, generators and scripted iterators: getting an iterator, taking
the next item, sending a value, closing.

A list iterator looks at its list anew each time, so items appended before the end is reached are
found.  Only iterators that say so accept a value; the others take `none` as a request for the next
item and refuse anything else.
-/

namespace Resumable

namespace Iterator

/-- The next item, if there is one.  An entry of a script is used up before it is carried out. -/
def next (e : Engine) : Run (Iterator × World) (Option Value) := do
  let (i, w) ← get
  match i with
  | .list source index =>
      match (w.items source)[index]? with
      | none => return none
      | some v =>
          set (Iterator.list source (index + 1), w.retain v)
          return some v
  | .scripted s =>
      match s.items with
      | [] => return none
      | .stop :: rest =>
          set (Iterator.scripted { s with items := rest }, w)
          return none
      | .give response :: rest =>
          set (Iterator.scripted { s with items := rest }, w)
          return some (← e.respond noFields response)

/-- The item that comes after sending a value. -/
def send (e : Engine) (v : Value) : Run (Iterator × World) (Option Value) := do
  let (i, w) ← get
  let echoes :=
    match i with
    | .list _ _ => false
    | .scripted s => s.echoes
  if echoes then
    set (i, w.note (.sent (w.picture v) i.typeName))
    if v.isNone then next e else return some v
  else if v.isNone then next e
  else
    Run.ensuring (Run.raise (.attributeError i.typeName "send")) (Run.shared (e.release v))

/-- Closes the iterator, if there is a way to close it. -/
def close? (e : Engine) : Run (Iterator × World) (Option (Except Exception Value)) := do
  match (← get).1 with
  | .list _ _ => return none
  | .scripted s =>
      match s.closing with
      | none => return none
      | some response =>
          modify fun (i, w) => (i, w.note (.closed s.name))
          let closed ← Run.attempt (e.respond noFields response)
          match response, closed with
          | .call _, .ok v => modify fun (i, w) => (i, w.note (.called (w.picture v)))
          | _, _ => pure ()
          return some closed

end Iterator

namespace World

/-- An iterator over a value: a new one over a list; generators and iterators are their own. -/
def getIter (v : Value) : Run World Value := do
  match v with
  | .list r =>
      share v
      makeIterator (.list r 0)
  | .generator _ =>
      share v
      return v
  | .iterator _ =>
      share v
      return v
  | _ =>
      let name ← typeName v
      Run.raise (.typeError ("'" ++ name ++ "' object is not iterable"))

/-- The refusal to step something that is no iterator. -/
def notAnIterator {α : Type} (v : Value) : Run World α := do
  let name ← typeName v
  Run.raise (.typeError ("'" ++ name ++ "' object is not an iterator"))

end World

namespace Engine

/-- The next item of an iterator, if there is one. -/
def nextItem (e : Engine) (iterator : Value) : Run World (Option Value) :=
  match iterator with
  | .generator g => e.nextOrEnd g
  | .iterator r => World.withIterator r (Iterator.next e)
  | other => World.notAnIterator other

/-- Sends a value to an iterator that is not a generator.  An iterator that is in use forgets the
value. -/
def sendToIterator (e : Engine) (r : IteratorRef) (v : Value) : Run World (Option Value) := do
  let _ ← (World.readIterator r).onInterruption (e.release v)
  World.withIterator r (Iterator.send e v)

/-- What the target of a delegation did with a value that was sent to it. -/
inductive Delegated where
  | item (v : Value)
  | finished (result : Value)
  deriving DecidableEq, Repr, Inhabited

/-- The value that the end of an iteration carries, with an owner of its own; the exception itself
is forgotten. -/
def takeStopValue (e : Engine) (exception : Exception) : Run World Value := do
  World.share exception.stopValue
  e.releaseException exception
  return exception.stopValue

/-- Sends a value to the target of a delegation. -/
def sendInto (e : Engine) (target v : Value) : Run World Delegated := do
  let step : Run World (Option Value) :=
    match target with
    | .generator g => some <$> e.send g v
    | .iterator r => e.sendToIterator r v
    | other => e.owning v (World.notAnIterator other)
  match ← Run.attempt step with
  | .ok (some item) => return .item item
  | .ok none => return .finished .none
  | .error exception =>
      if exception.kind = .stopIteration then return .finished (← e.takeStopValue exception)
      else Run.raise exception

/-- Closes the target of a delegation.  What cannot be closed is left alone, and so is an iterator
whose way of closing turns out to be missing. -/
def closeIter (e : Engine) (iterator : Value) : Run World Value :=
  match iterator with
  | .generator g => e.close g
  | .iterator r =>
      World.withIterator r do
        match ← Iterator.close? e with
        | none => return .none
        | some (.ok v) => return v
        | some (.error exception) =>
            if exception.kind = .attributeError then
              Run.shared (e.releaseException exception)
              return .none
            else Run.raise exception
  | _ => pure .none

end Engine

end Resumable
