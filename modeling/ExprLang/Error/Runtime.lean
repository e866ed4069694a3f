/-
  RUN-TIME ERRORS: what stops the evaluation of a program.

  Values know their kind but not their type, so these errors name kinds.  A fault of a builtin
  stands at the operator or call that applied it.
-/
import ExprLang.Report
import ExprLang.Value

namespace ExprLang

/-- Why a program has no value. -/
inductive RuntimeError where
  | undefinedName (name : String) (location : Location)
  | notABool (found : Kind) (location : Location)
  | notAFunction (found : Kind) (location : Location)
  | notAssignable (location : Location)
  | fault (cause : Fault) (location : Location)
deriving DecidableEq

namespace RuntimeError

/-- The place of the error. -/
def location : RuntimeError → Location
  | .undefinedName _ loc => loc
  | .notABool _ loc => loc
  | .notAFunction _ loc => loc
  | .notAssignable loc => loc
  | .fault _ loc => loc

/-- What went wrong, without the place. -/
def complaint : RuntimeError → String
  | .undefinedName name _ => "undefined name \"" ++ name ++ "\""
  | .notABool found _ => "expected a Bool, found " ++ found.text
  | .notAFunction found _ => found.text ++ " is not a function"
  | .notAssignable _ => "only a variable can be assigned to"
  | .fault cause _ => cause.text

/-- What the report says at the place of the error. -/
def label : RuntimeError → String
  | .undefinedName name _ => Report.found name ++ " is not defined here"
  | .notABool found _ =>
    "expected " ++ Report.wanted Kind.bool.text ++ " but this evaluated to "
      ++ Report.found found.text
  | .notAFunction found _ =>
    "a value of type " ++ Report.found found.text ++ " cannot be called"
  | .notAssignable _ => "the left side of this `=` is not a variable"
  | .fault cause _ => Report.found cause.text

/-- The report of this error. -/
def report (e : RuntimeError) : Report :=
  { location := e.location
    code := "Runtime Error"
    message := "evaluation failed"
    label := e.label }

end RuntimeError
end ExprLang
