import FluidCss.Forest.Edit
import FluidCss.Sheet.CssError

set_option autoImplicit false

/-! # Failures

Everything that can keep an operation on a style sheet from giving a result. -/

namespace FluidCss

/-- Why an operation gives no result. -/
inductive Failure where
  /-- The sheet is refused. -/
  | css (error : CssError)
  /-- The number of the root font size is zero. -/
  | divisionByZero
  /-- The property cannot be fluid. -/
  | unknownProperty (name : String)
  /-- The nodes could not be rearranged. -/
  | edit (error : EditError)
  /-- The top of a sheet stands below another node. -/
  | nestedRoot
  /-- The word stands for no severity. -/
  | unknownSeverity (word : String)
deriving DecidableEq, Repr

/-- The message of a failure. -/
def Failure.message : Failure → String
  | css error => error.message
  | divisionByZero => "float division by zero"
  | unknownProperty name => Text.quoted name
  | edit error => error.message
  | nestedRoot => "Cannot print node of type Root"
  | unknownSeverity word => Text.quoted word ++ " is not a valid Severity"

end FluidCss
