/-
  EXPRESSIONS: the trees that programs are.

  Every node carries the location of the token it comes from.  Operators are kept by their
  spelling: assignment is the binary operator `=`, and what any other operator means is a matter
  of the names in scope.  A tree need not come from a text, so nothing here assumes that an
  operator exists, that the left side of `=` is a name, or that a declaration stands in a block.
-/
import ExprLang.Location

namespace ExprLang

/-- A program, or a part of one. -/
inductive Expr where
  | int (location : Location) (value : Int64)
  | bool (location : Location) (value : Bool)
  | unit (location : Location)
  | name (location : Location) (name : String)
  | unary (location : Location) (op : String) (operand : Expr)
  | binary (location : Location) (op : String) (left right : Expr)
  | ifThen (location : Location) (condition thenBranch : Expr)
  | ifElse (location : Location) (condition thenBranch elseBranch : Expr)
  | call (location : Location) (function : Expr) (arguments : List Expr)
  | var (location : Location) (name : String) (value : Expr)
  | block (location : Location) (statements : List Expr)

namespace Expr

/-- Where the token of this node stands. -/
def location : Expr → Location
  | .int loc _ => loc
  | .bool loc _ => loc
  | .unit loc => loc
  | .name loc _ => loc
  | .unary loc _ _ => loc
  | .binary loc _ _ _ => loc
  | .ifThen loc _ _ => loc
  | .ifElse loc _ _ _ => loc
  | .call loc _ _ => loc
  | .var loc _ _ => loc
  | .block loc _ => loc

/-- Statements after which a block needs no semicolon. -/
def isCompound : Expr → Bool
  | .ifThen .. => true
  | .ifElse .. => true
  | .call .. => true
  | .var .. => true
  | .block .. => true
  | _ => false

/-- The name that a unary operator has among the builtins; the spelling alone names the binary
    operator. -/
def unaryName (op : String) : String := "unary_" ++ op

mutual

/-- Whether two trees agree, where a synthetic location goes with any other. -/
def same : Expr → Expr → Bool
  | .int l a, .int m b => l.same m && a == b
  | .bool l a, .bool m b => l.same m && a == b
  | .unit l, .unit m => l.same m
  | .name l a, .name m b => l.same m && a == b
  | .unary l o a, .unary m p b => l.same m && o == p && a.same b
  | .binary l o a b, .binary m p c d => l.same m && o == p && a.same c && b.same d
  | .ifThen l a b, .ifThen m c d => l.same m && a.same c && b.same d
  | .ifElse l a b c, .ifElse m d e f => l.same m && a.same d && b.same e && c.same f
  | .call l f as, .call m g bs => l.same m && f.same g && sameAll as bs
  | .var l n a, .var m o b => l.same m && n == o && a.same b
  | .block l as, .block m bs => l.same m && sameAll as bs
  | _, _ => false

/-- Whether two lists of trees agree in the same way. -/
def sameAll : List Expr → List Expr → Bool
  | [], [] => true
  | a :: as, b :: bs => a.same b && sameAll as bs
  | _, _ => false

end

end Expr
end ExprLang
