/-
  VALUES, and what the builtins make of them.

  Integers have 64 bits and wrap around; only division by zero is refused.  A quotient is
  truncated toward zero and a remainder has the sign of the dividend.

  `Builtin.apply` is given the output so far and gives back the output after.  Only the printing
  functions touch it, and only when they succeed.
-/
import ExprLang.Builtin
import ExprLang.Output
import ExprLang.Text.Decimal

namespace ExprLang

/-- The kinds of values, as messages name them. -/
inductive Kind where
  | int
  | bool
  | unit
  | function
deriving DecidableEq

namespace Kind

/-- The name of a kind. -/
def text : Kind → String
  | int => "Int"
  | bool => "Bool"
  | unit => "Unit"
  | function => "Function"

end Kind

/-- What an expression evaluates to. -/
inductive Value where
  | int (n : Int64)
  | bool (b : Bool)
  | unit
  | builtin (b : Builtin)
deriving DecidableEq

/-- The text of a Boolean. -/
def boolText (b : Bool) : String := if b then "true" else "false"

namespace Value

/-- The kind of a value. -/
def kind : Value → Kind
  | int _ => .int
  | bool _ => .bool
  | unit => .unit
  | builtin _ => .function

/-- The text of a value. -/
def text : Value → String
  | int n => Decimal.ofInt64 n
  | bool b => boolText b
  | unit => "unit"
  | builtin b => "<builtin " ++ b.name ++ ">"

end Value

/-- Why a builtin gave no value. -/
inductive Fault where
  | divisionByZero
  | badOperands (builtin : Builtin) (found : List Kind)
  | outputClosed
deriving DecidableEq

namespace Fault

/-- The text of a fault. -/
def text : Fault → String
  | divisionByZero => "division by zero"
  | badOperands builtin found =>
    "`" ++ builtin.name ++ "` cannot be applied to (" ++ ", ".intercalate (found.map Kind.text)
      ++ ")"
  | outputClosed => "could not write output: closed"

end Fault

namespace Builtin

/-- The value of a builtin that prints nothing, at these operands. -/
def compute (b : Builtin) (args : List Value) : Except Fault Value :=
  match b, args with
  | add, [.int m, .int n] => .ok (.int (m + n))
  | subtract, [.int m, .int n] => .ok (.int (m - n))
  | multiply, [.int m, .int n] => .ok (.int (m * n))
  | divide, [.int m, .int n] => if n = 0 then .error .divisionByZero else .ok (.int (m / n))
  | remainder, [.int m, .int n] => if n = 0 then .error .divisionByZero else .ok (.int (m % n))
  | less, [.int m, .int n] => .ok (.bool (m < n))
  | greater, [.int m, .int n] => .ok (.bool (n < m))
  | lessEqual, [.int m, .int n] => .ok (.bool (m ≤ n))
  | greaterEqual, [.int m, .int n] => .ok (.bool (n ≤ m))
  | equal, [v, w] =>
    if v.kind = w.kind then .ok (.bool (v = w)) else .error (.badOperands b [v.kind, w.kind])
  | notEqual, [v, w] =>
    if v.kind = w.kind then .ok (.bool (v ≠ w)) else .error (.badOperands b [v.kind, w.kind])
  | and, [.bool p, .bool q] => .ok (.bool (p && q))
  | or, [.bool p, .bool q] => .ok (.bool (p || q))
  | negate, [.int n] => .ok (.int (-n))
  | not, [.bool p] => .ok (.bool (!p))
  | b, args => .error (.badOperands b (args.map Value.kind))

/-- The line that a builtin prints at these operands, if it is one that prints. -/
def lineOf? (b : Builtin) (args : List Value) : Option String :=
  match b, args with
  | printInt, [.int n] => some (Decimal.ofInt64 n)
  | printBool, [.bool p] => some (boolText p)
  | _, _ => none

/-- Apply a builtin: print its line and give unit, or compute its value. -/
def apply (b : Builtin) (args : List Value) (out : Output) : Except Fault (Value × Output) :=
  match b.lineOf? args with
  | some line =>
    match out.print? line with
    | some out => .ok (.unit, out)
    | none => .error .outputClosed
  | none => (b.compute args).map fun v => (v, out)

end Builtin
end ExprLang
