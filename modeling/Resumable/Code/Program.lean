import Resumable.Code.Constant
import Resumable.Code.Instruction

set_option autoImplicit false

/-!
# Programs

The assembled code of one generator body.  A program is immutable and knows nothing of the frames
it runs in: local variables, value stack and resume point live in the frame.
-/

namespace Resumable.Code

/-- An assembled body.  The first `argCount` local variables are bound from the call. -/
structure Program where
  instructions : List Instruction
  localNames : List String
  argCount : Nat
  constants : List Constant
  deriving DecidableEq, Repr, Inhabited

namespace Program

/-- The name of a local variable, with a stand-in for indices that have no name. -/
def variableName (p : Program) (index : Nat) : String := p.localNames[index]?.getD "<unknown>"

private def numbered (open_ close_ : String) (lines : List String) : String :=
  (lines.zipIdx.map fun (line, index) => open_ ++ toString index ++ close_ ++ line ++ "\n").foldl
    (· ++ ·) ""

/-- The names of the variables, the constants and the instructions, each with its number. -/
def listing (p : Program) : String :=
  "varnames:\n" ++ numbered "[" "]: " p.localNames
    ++ "\nconstants:\n" ++ numbered "[" "]: " (p.constants.map Constant.text)
    ++ "\nbytecode:\n" ++ numbered "" ": " (p.instructions.map Instruction.text)

end Program

end Resumable.Code
