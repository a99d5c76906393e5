import Resumable.World

set_option autoImplicit false

/-!
# Forms: values with their lists written out

A list holds references, so what a value looks like depends on the world.  The form of a value is
the tree that remains when every list is replaced by its items, and every other object by its
reference and what it is called.  A list that is met again inside itself becomes a cycle mark, so
every value has a form.

Texts, equality and pictures are functions of the form alone and recurse on it.
-/

namespace Resumable

/-- A value with its lists written out. -/
inductive Form where
  | none
  | bool (b : Bool)
  | int (i : Int64)
  | str (s : String)
  | list (r : ListRef) (items : List Form)
  /-- a list found inside itself -/
  | cycle (r : ListRef)
  /-- an iterator, without a type name while one of its methods runs -/
  | iterator (r : IteratorRef) (typeName : Option String)
  | generator (r : GeneratorRef) (name : String)
  /-- a frame, without a name while it runs -/
  | frame (r : FrameRef) (name : Option String)
  | code (r : CodeRef) (name filename : String)
  | exceptionType (kind : ExceptionKind)
  | exception (kind : ExceptionKind) (args : List Form) (traceback : Option Traceback)
  | traceback (t : Traceback)
  deriving Repr, Inhabited

/-! ## Writing values out -/

namespace World

mutual

/-- The form of a value, given the form of lists. -/
def formWith (w : World) (ofList : ListRef → Form) : Value → Form
  | .none => .none
  | .bool b => .bool b
  | .int i => .int i
  | .str s => .str s
  | .list r => ofList r
  | .iterator r => .iterator r ((w.iterator? r).map Iterator.typeName)
  | .generator r => .generator r (w.code (w.generator r).code).name
  | .frame r => .frame r ((w.frame? r).map fun f => (w.code f.code).name)
  | .code r => .code r (w.code r).name (w.code r).filename
  | .exceptionType kind => .exceptionType kind
  | .exception kind args tb => .exception kind (w.formsWith ofList args) tb
  | .traceback t => .traceback t

/-- The forms of values, given the form of lists. -/
def formsWith (w : World) (ofList : ListRef → Form) : List Value → List Form
  | [] => []
  | v :: vs => w.formWith ofList v :: w.formsWith ofList vs

end

/-- The form of a value inside the lists of a path, with lists written out down to a depth. -/
def formAt (w : World) : Nat → List ListRef → Value → Form
  | 0, _ => w.formWith .cycle
  | n + 1, path =>
      w.formWith fun r =>
        if r ∈ path then .cycle r
        else .list r ((w.items r).map (w.formAt n (r :: path)))

/-- The form of a value.  A path that meets no list twice is not longer than the number of lists,
so the depth is never what ends it. -/
def form (w : World) (v : Value) : Form := w.formAt (w.lists.size + 1) [] v

/-- The forms of values. -/
def forms (w : World) (vs : List Value) : List Form := vs.map w.form

end World

namespace Form

mutual

/-- Whether some part of the form has a property. -/
def any (p : Form → Bool) (f : Form) : Bool :=
  p f ||
    match f with
    | list _ items => anyOf p items
    | exception _ args _ => anyOf p args
    | _ => false

/-- Whether some part of the forms has a property. -/
def anyOf (p : Form → Bool) : List Form → Bool
  | [] => false
  | f :: fs => any p f || anyOf p fs

end

/-- Whether some list is found inside itself. -/
def isCyclic (f : Form) : Bool := f.any fun | cycle _ => true | _ => false

/-- Whether the form contains an iterator that has no type name at present. -/
def isInUse (f : Form) : Bool := f.any fun | iterator _ .none => true | _ => false

/-! ## Texts -/

/-- The number of an object as an address. -/
def address (index : Nat) : String := "0x" ++ String.ofList (Nat.toDigits 16 index)

private def joined (texts : List String) : String := String.intercalate ", " texts

mutual

/-- The text of a value: quoted as it is inside a list, or plain as it is inside a message. -/
def write (quoted : Bool) : Form → String
  | none => "None"
  | bool true => "True"
  | bool false => "False"
  | int i => toString i.toInt
  | str s => if quoted then "'" ++ s ++ "'" else s
  | list _ items => "[" ++ joined (writeAll items) ++ "]"
  | cycle _ => "[...]"
  | iterator r typeName => "<" ++ typeName.getD "" ++ " object at " ++ address r.index ++ ">"
  | generator r name => "<generator object " ++ name ++ " at " ++ address r.index ++ ">"
  | frame r _ => "<frame at " ++ address r.index ++ ">"
  | code r name filename =>
      "<code object " ++ name ++ " at " ++ address r.index ++ ", file \"" ++ filename ++ "\">"
  | exceptionType kind => "<class '" ++ kind.name ++ "'>"
  | exception kind args _ =>
      if quoted then kind.name ++ "(" ++ joined (writeAll args) ++ ")"
      else
        match args with
        | [] => ""
        | [arg] => arg.write false
        | args => "(" ++ joined (writeAll args) ++ ")"
  | traceback _ => "<traceback object>"

/-- The quoted texts of values. -/
def writeAll : List Form → List String
  | [] => []
  | f :: fs => f.write true :: writeAll fs

end

/-- The text of a value inside other values. -/
def repr (f : Form) : String := f.write true

/-- The text of a value on its own. -/
def display (f : Form) : String := f.write false

/-- The message of an exception with the given arguments; without arguments there is none. -/
def message? : List Form → Option String
  | [] => .none
  | [arg] => some arg.display
  | args => some ("(" ++ joined (writeAll args) ++ ")")

/-! ## Equality -/

mutual

/-- Equality: data by content, objects by reference, lists by reference or by content. -/
def equal : Form → Form → Bool
  | none, none => true
  | bool a, bool b => a == b
  | int a, int b => a == b
  | str a, str b => a == b
  | list r as, list s bs => r == s || equalAll as bs
  | cycle r, cycle s => r == s
  | iterator r _, iterator s _ => r == s
  | generator r _, generator s _ => r == s
  | frame r _, frame s _ => r == s
  | code r _ _, code s _ _ => r == s
  | exceptionType a, exceptionType b => a == b
  | exception a as t, exception b bs u => a == b && equalAll as bs && t == u
  | traceback t, traceback u => t == u
  | _, _ => false

/-- Equality of as many forms on both sides. -/
def equalAll : List Form → List Form → Bool
  | [], [] => true
  | a :: as, b :: bs => equal a b && equalAll as bs
  | _, _ => false

end

/-! ## Pictures -/

mutual

/-- The picture of a form, with the names of the variables that hold its objects. -/
def picture (names : Names) : Form → Picture
  | none => .none
  | bool b => .bool b
  | int i => .int i
  | str s => .str s
  | list r items => .list (pictures names items) (names.nameOf? (.list r))
  | cycle _ => .cycle
  | iterator r typeName => .iterator typeName (names.nameOf? (.iterator r))
  | generator r name => .generator name (names.nameOf? (.generator r))
  | frame r name => .frame name (names.nameOf? (.frame r))
  | code r name _ => .code name (names.nameOf? (.code r))
  | exceptionType kind => .exceptionType kind
  | exception kind args tb => .exception kind (pictures names args) tb
  | traceback t => .traceback t

/-- The pictures of forms. -/
def pictures (names : Names) : List Form → List Picture
  | [] => []
  | f :: fs => f.picture names :: pictures names fs

end

end Form

namespace World

/-- The picture of a value. -/
def picture (w : World) (v : Value) : Picture := (w.form v).picture w.names

/-- Whether a list is found inside itself in a value. -/
def isCyclic (w : World) (v : Value) : Bool := (w.form v).isCyclic

/-- The text of a value inside other values. -/
def repr (w : World) (v : Value) : String := (w.form v).repr

/-- The text of a value on its own. -/
def display (w : World) (v : Value) : String := (w.form v).display

/-- Equality of values. -/
def equal (w : World) (a b : Value) : Bool := (w.form a).equal (w.form b)

/-- Whether a value counts as true. -/
def isTruthy (w : World) : Value → Bool
  | .none => false
  | .bool b => b
  | .int i => i != 0
  | .str s => !s.isEmpty
  | .list r => !(w.items r).isEmpty
  | _ => true

/-- The name of the type of a value as error messages give it; an iterator has none while one of
its methods runs. -/
def typeName? (w : World) : Value → Option String
  | .iterator r => (w.iterator? r).map Iterator.typeName
  | .exception kind _ _ => some kind.name
  | v => some v.type.name

/-- The text of an exception: its class, and its message if it has one. -/
def exceptionText (w : World) (e : Exception) : String :=
  match Form.message? (w.forms e.args) with
  | none => e.kind.name
  | some message => e.kind.name ++ ": " ++ message

/-- The text of an exception preceded by the places that it escaped through. -/
def exceptionDebugText (w : World) (e : Exception) : String :=
  (e.traceback.map Traceback.text).getD "" ++ w.exceptionText e

end World

end Resumable
