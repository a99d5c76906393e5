import Resumable.Value

set_option autoImplicit false

/-!
# Constants

The part of the values that a constant pool may hold: data without references and without
arguments of its own, so a pool can be shared by every run of its program.
-/

namespace Resumable.Code

/-- An entry of a constant pool. -/
inductive Constant where
  | none
  | bool (b : Bool)
  | int (i : Int64)
  | str (s : String)
  | exceptionType (kind : ExceptionKind)
  deriving DecidableEq, Repr, Inhabited

namespace Constant

/-- The constant as it stands in a listing. -/
def text : Constant → String
  | none => "None"
  | bool true => "true"
  | bool false => "false"
  | int i => toString i.toInt
  | str s => "'" ++ s ++ "'"
  | exceptionType kind => kind.name

/-- The value that loading the constant gives. -/
def toValue : Constant → Value
  | none => .none
  | bool b => .bool b
  | int i => .int i
  | str s => .str s
  | exceptionType kind => .exceptionType kind

theorem toValue_injective {a b : Constant} (h : a.toValue = b.toValue) : a = b := by
  cases a <;> cases b <;> simp_all [toValue]

end Constant

end Resumable.Code
