/-
  ERRORS of turning a tree into code.  A program that type checks has none of them.
-/
import ExprLang.Report

namespace ExprLang

/-- Why a tree has no code. -/
inductive LoweringError where
  | undefinedName (name : String) (location : Location)
  | notAssignable (location : Location)
deriving DecidableEq

namespace LoweringError

/-- The place of the error. -/
def location : LoweringError → Location
  | .undefinedName _ loc => loc
  | .notAssignable loc => loc

/-- What went wrong, without the place. -/
def complaint : LoweringError → String
  | .undefinedName name _ => "no IR variable bound to \"" ++ name ++ "\""
  | .notAssignable _ => "only a variable can be assigned to"

/-- The report of this error. -/
def report : LoweringError → Report
  | .undefinedName name loc =>
    { location := loc
      code := "Internal Error"
      message := "name without an IR variable"
      label := Report.found name ++ " has no IR variable in scope"
      note := some "builtins must be passed as reserved names" }
  | .notAssignable loc =>
    { location := loc
      code := "Internal Error"
      message := "invalid assignment target"
      label := "the left side of this `=` is not a variable" }

end LoweringError
end ExprLang
