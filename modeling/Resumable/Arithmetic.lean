import Resumable.Value

set_option autoImplicit false

/-!
# Arithmetic on values

Sums, differences and comparisons of 64-bit integers, and of texts where that makes sense.  A
result outside the range of the integers is an overflow and never wraps.  Texts compare by their
code points.
-/

namespace Resumable

/-- Why an operation on two values has no result. -/
inductive OperandFault where
  /-- the result is no 64-bit integer -/
  | overflow
  /-- the operation is not defined on values of these types -/
  | unsupported
  deriving DecidableEq, Repr, Inhabited

/-- The integer as a 64-bit one, if it is in range. -/
def int64? (n : Int) : Option Int64 :=
  if Int64.minValue.toInt ≤ n ∧ n ≤ Int64.maxValue.toInt then some (Int64.ofInt n) else none

theorem toInt_of_int64? {n : Int} {i : Int64} (h : int64? n = some i) : i.toInt = n := by
  unfold int64? at h
  split at h
  · next hn =>
      cases h
      exact Int64.toInt_ofInt_of_le hn.1 (Int.lt_of_le_of_lt hn.2 (by decide))
  · contradiction

theorem int64?_toInt (i : Int64) : int64? i.toInt = some i := by
  unfold int64?
  rw [if_pos ⟨Int64.minValue_le_toInt i, Int64.toInt_le i⟩, Int64.ofInt_toInt]

namespace Value

/-- The integer as a value, or an overflow. -/
def ofInt? (n : Int) : Except OperandFault Value :=
  match int64? n with
  | some i => .ok (.int i)
  | .none => .error .overflow

/-- The sum of two integers or two texts. -/
def add : Value → Value → Except OperandFault Value
  | int a, int b => ofInt? (a.toInt + b.toInt)
  | str a, str b => .ok (.str (a ++ b))
  | _, _ => .error .unsupported

/-- The difference of two integers. -/
def sub : Value → Value → Except OperandFault Value
  | int a, int b => ofInt? (a.toInt - b.toInt)
  | _, _ => .error .unsupported

/-- Whether one integer or text is less than another. -/
def lessThan : Value → Value → Except OperandFault Value
  | int a, int b => .ok (.bool (decide (a.toInt < b.toInt)))
  | str a, str b => .ok (.bool (decide (a < b)))
  | _, _ => .error .unsupported

end Value

end Resumable
