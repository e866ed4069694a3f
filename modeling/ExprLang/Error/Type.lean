/-
  TYPE ERRORS: what a checked program cannot do.

  A mismatch says in which `Role` an expression was used: a branch, an operand, an argument.  It
  stands at that expression; the other errors stand at the name, operator or function they are
  about.
-/
import ExprLang.Report
import ExprLang.Ty

namespace ExprLang

/-- What an expression of a particular type is wanted for. -/
inductive Role where
  | condition
  | thenBranch
  | operand (op : String)
  | leftOperand (op : String)
  | rightOperand (op : String)
  | argument (number : Nat) (function : String)
  | assignedTo (name : String)
deriving DecidableEq

namespace Role

/-- How a message names a role. -/
def describe : Role → String
  | condition => "if condition"
  | thenBranch => "then-branch of an if without else"
  | operand op => "operand of \"" ++ op ++ "\""
  | leftOperand op => "left operand of \"" ++ op ++ "\""
  | rightOperand op => "right operand of \"" ++ op ++ "\""
  | argument number function => "argument " ++ toString number ++ " of \"" ++ function ++ "\""
  | assignedTo name => "value assigned to \"" ++ name ++ "\""

end Role

/-- Why a program has no type. -/
inductive TypeError where
  | undefinedName (name : String) (location : Location)
  | mismatch (role : Role) (expected found : Ty) (location : Location)
  | unequalOperands (op : String) (left right : Ty) (location : Location)
  | branchMismatch (thenType elseType : Ty) (location : Location)
  | notAssignable (location : Location)
  | notAFunction (found : Ty) (location : Location)
  | arityMismatch (function : String) (expected found : Nat) (location : Location)
deriving DecidableEq

namespace TypeError

/-- The place of the error. -/
def location : TypeError → Location
  | .undefinedName _ loc => loc
  | .mismatch _ _ _ loc => loc
  | .unequalOperands _ _ _ loc => loc
  | .branchMismatch _ _ loc => loc
  | .notAssignable loc => loc
  | .notAFunction _ loc => loc
  | .arityMismatch _ _ _ loc => loc

/-- What went wrong, without the place. -/
def complaint : TypeError → String
  | .undefinedName name _ => "undefined name \"" ++ name ++ "\""
  | .mismatch role expected found _ =>
    role.describe ++ " should be " ++ expected.text ++ ", found " ++ found.text
  | .unequalOperands op left right _ =>
    "operands of \"" ++ op ++ "\" must have the same type, found " ++ left.text ++ " and "
      ++ right.text
  | .branchMismatch thenType elseType _ =>
    "if branches have different types, " ++ thenType.text ++ " and " ++ elseType.text
  | .notAssignable _ => "only a variable can be assigned to"
  | .notAFunction found _ => found.text ++ " is not a function"
  | .arityMismatch function expected found _ =>
    "\"" ++ function ++ "\" takes " ++ toString expected ++ " argument(s) but " ++ toString found
      ++ " were given"

/-- The report of this error. -/
def report (e : TypeError) : Report :=
  match e with
  | .undefinedName name _ =>
    { location := e.location
      code := "Name Error"
      message := "undefined name"
      label := Report.found name ++ " is not defined in this scope"
      note := some "declare it first with `var name = value` inside a block" }
  | .mismatch role expected found _ =>
    { location := e.location
      code := "Type Error"
      message := "type mismatch"
      label := role.describe ++ " should be " ++ Report.wanted expected.text ++ " but is "
        ++ Report.found found.text }
  | .unequalOperands op left right _ =>
    { location := e.location
      code := "Type Error"
      message := "cannot compare " ++ left.text ++ " with " ++ right.text
      label := Report.wanted op ++ " needs both sides to be the same type, found "
        ++ Report.found left.text ++ " and " ++ Report.found right.text }
  | .branchMismatch thenType elseType _ =>
    { location := e.location
      code := "Type Error"
      message := "if and else have incompatible types"
      label := "then-branch is " ++ Report.wanted thenType.text ++ " but else-branch is "
        ++ Report.found elseType.text }
  | .notAssignable _ =>
    { location := e.location
      code := "Type Error"
      message := "invalid assignment target"
      label := "the left side of this `=` is not a variable" }
  | .notAFunction found _ =>
    { location := e.location
      code := "Type Error"
      message := "call of a non-function"
      label := "this has type " ++ Report.found found.text ++ " and cannot be called" }
  | .arityMismatch function expected found _ =>
    { location := e.location
      code := "Type Error"
      message := "wrong number of arguments"
      label := Report.wanted function ++ " expects " ++ toString expected ++ " argument(s), got "
        ++ Report.found (toString found) }

end TypeError
end ExprLang
