set_option autoImplicit false

/-!
# Exception classes

The classes that a generator can raise and catch, and the tree they form.  The tree is rooted at
`baseException`; `generatorExit` hangs directly under the root, so a handler for `exception` lets
it pass.  `isSubclassOf` is membership in the chain of base classes, and it is a partial order.
-/

namespace Resumable

/-- An exception class. -/
inductive ExceptionKind where
  | baseException
  | generatorExit
  | exception
  | stopIteration
  | typeError
  | valueError
  | runtimeError
  | recursionError
  | attributeError
  | lookupError
  | keyError
  | arithmeticError
  | overflowError
  | nameError
  | systemError
  deriving DecidableEq, Repr, Inhabited

namespace ExceptionKind

/-- Every class, in the order of declaration. -/
def all : List ExceptionKind :=
  [baseException, generatorExit, exception, stopIteration, typeError, valueError, runtimeError,
    recursionError, attributeError, lookupError, keyError, arithmeticError, overflowError,
    nameError, systemError]

theorem mem_all (k : ExceptionKind) : k ∈ all := by
  cases k <;> simp [all]

/-- The name of the class. -/
def name : ExceptionKind → String
  | baseException => "BaseException"
  | generatorExit => "GeneratorExit"
  | exception => "Exception"
  | stopIteration => "StopIteration"
  | typeError => "TypeError"
  | valueError => "ValueError"
  | runtimeError => "RuntimeError"
  | recursionError => "RecursionError"
  | attributeError => "AttributeError"
  | lookupError => "LookupError"
  | keyError => "KeyError"
  | arithmeticError => "ArithmeticError"
  | overflowError => "OverflowError"
  | nameError => "NameError"
  | systemError => "SystemError"

/-- The class with the given name. -/
def ofName? (s : String) : Option ExceptionKind := all.find? (·.name == s)

/-- The direct base class; only the root has none. -/
def parent : ExceptionKind → Option ExceptionKind
  | baseException => none
  | generatorExit => some baseException
  | exception => some baseException
  | recursionError => some runtimeError
  | keyError => some lookupError
  | overflowError => some arithmeticError
  | _ => some exception

/-- The class itself followed by its base classes, the root last. -/
def ancestors (k : ExceptionKind) : List ExceptionKind :=
  match k with
  | baseException => [k]
  | generatorExit => [k, baseException]
  | exception => [k, baseException]
  | recursionError => [k, runtimeError, exception, baseException]
  | keyError => [k, lookupError, exception, baseException]
  | overflowError => [k, arithmeticError, exception, baseException]
  | _ => [k, exception, baseException]

/-- The chain of a class is the class followed by the chain of its base class. -/
theorem ancestors_eq (k : ExceptionKind) :
    k.ancestors = k :: (k.parent.map ancestors).getD [] := by
  cases k <;> rfl

/-- A class is a subclass of itself and of every class it derives from. -/
def isSubclassOf (k other : ExceptionKind) : Bool := k.ancestors.contains other

theorem isSubclassOf_self (k : ExceptionKind) : k.isSubclassOf k = true := by
  cases k <;> rfl

/-- Going up to a base class and being a subclass of another leads to the other. -/
theorem isSubclassOf_trans {a b c : ExceptionKind} (hab : a.isSubclassOf b = true)
    (hbc : b.isSubclassOf c = true) : a.isSubclassOf c = true := by
  revert hab hbc
  cases a <;> cases b <;> simp [isSubclassOf, ancestors] <;> cases c <;> simp

end ExceptionKind

end Resumable
