/-
  BUILTINS: the operators and the two printing functions.

  Every builtin has the name under which programs and code use it, and most have one function
  type.  `==` and `!=` compare any two values of one kind, which no single type says, so they have
  none.
-/
import ExprLang.Ty

namespace ExprLang

/-- Everything that is bound before a program starts. -/
inductive Builtin where
  | add
  | subtract
  | multiply
  | divide
  | remainder
  | less
  | greater
  | lessEqual
  | greaterEqual
  | equal
  | notEqual
  | and
  | or
  | negate
  | not
  | printInt
  | printBool
deriving DecidableEq

namespace Builtin

/-- All builtins in the order of the registry. -/
def all : List Builtin :=
  [add, subtract, multiply, divide, remainder, less, greater, lessEqual, greaterEqual, equal,
   notEqual, and, or, negate, not, printInt, printBool]

/-- The name of a builtin.  Those of the unary operators are made up; `unary_not` happens to be an
    identifier. -/
def name : Builtin → String
  | add => "+"
  | subtract => "-"
  | multiply => "*"
  | divide => "/"
  | remainder => "%"
  | less => "<"
  | greater => ">"
  | lessEqual => "<="
  | greaterEqual => ">="
  | equal => "=="
  | notEqual => "!="
  | and => "and"
  | or => "or"
  | negate => "unary_-"
  | not => "unary_not"
  | printInt => "print_int"
  | printBool => "print_bool"

/-- The builtin of a name. -/
def named? (name : String) : Option Builtin := all.find? (·.name = name)

/-- The function type of a builtin, if it has one. -/
def signature? : Builtin → Option Ty
  | add | subtract | multiply | divide | remainder => some (.func [.int, .int] .int)
  | less | greater | lessEqual | greaterEqual => some (.func [.int, .int] .bool)
  | equal | notEqual => none
  | and | or => some (.func [.bool, .bool] .bool)
  | negate => some (.func [.int] .int)
  | not => some (.func [.bool] .bool)
  | printInt => some (.func [.int] .unit)
  | printBool => some (.func [.bool] .unit)

theorem named?_name (b : Builtin) : named? b.name = some b := by cases b <;> decide

/-- No two builtins share a name. -/
theorem name_injective {a b : Builtin} (h : a.name = b.name) : a = b := by
  have found := named?_name a
  rw [h, named?_name b] at found
  exact (Option.some.inj found).symm

end Builtin

/-- The name that stands for "no value" in the code. -/
def unitName : String := "unit"

/-- The names that code uses without defining them. -/
def reservedNames : List String := unitName :: Builtin.all.map Builtin.name

end ExprLang
