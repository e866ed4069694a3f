/-
  TYPING: the type of a program, found from left to right.

  The state of the checker is the chain of scopes with the types of the names.  A declaration
  binds in the innermost scope, a block opens one of its own; what was bound before an error stays
  bound after it.

  An operator is a name like any other and takes its type from the scopes, looked up after its
  operands are checked.  Only `==` and `!=`, which compare any two values of one type, and
  assignment have rules of their own.
-/
import ExprLang.Builtin
import ExprLang.Expr
import ExprLang.Scopes
import ExprLang.Error.Type

namespace ExprLang.Typing

/-- A step of the checker. -/
abbrev Check (α : Type) := EStateM TypeError (Scopes Ty) α

/-! ## Small steps -/

/-- The type that a name is bound to. -/
def lookup (name : String) (loc : Location) : Check Ty := fun scopes =>
  match scopes.lookup name with
  | some ty => .ok ty scopes
  | none => .error (.undefinedName name loc) scopes

/-- Bind a name in the innermost scope. -/
def define (name : String) (ty : Ty) : Check Unit := fun scopes => .ok () (scopes.define name ty)

/-- Parameters and result of the function type that an operator is bound to. -/
def operatorType (op : String) (loc : Location) : Check (List Ty × Ty) := do
  match ← lookup op loc with
  | .func params result => pure (params, result)
  | found => throw (.notAFunction found loc)

/-- Insist on a type. -/
def expect (role : Role) (expected found : Ty) (loc : Location) : Check Unit :=
  if expected = found then pure () else throw (.mismatch role expected found loc)

/-- Run a step in a scope of its own. -/
def inScope {α : Type} (act : Check α) : Check α := within Scopes.push Scopes.pop act

/-- How a message names the function of a call. -/
def calleeName : Expr → String
  | .name _ n => n
  | _ => "function"

/-! ## Expressions -/

mutual

/-- The type of an expression. -/
def check : Expr → Check Ty
  | .int _ _ => pure .int
  | .bool _ _ => pure .bool
  | .unit _ => pure .unit
  | .name loc n => lookup n loc
  | .unary loc op operand => do
    let operandType ← check operand
    match ← operatorType (Expr.unaryName op) loc with
    | ([param], result) => do
      expect (.operand op) param operandType operand.location
      pure result
    | (params, _) => throw (.arityMismatch (Expr.unaryName op) params.length 1 loc)
  | .binary loc op left right =>
    if op = "=" then
      match left with
      | .name nameLoc n => do
        let variableType ← lookup n nameLoc
        let valueType ← check right
        expect (.assignedTo n) variableType valueType right.location
        pure valueType
      | _ => throw (.notAssignable left.location)
    else do
      let leftType ← check left
      let rightType ← check right
      if op = "==" ∨ op = "!=" then
        if leftType = rightType then pure .bool
        else throw (.unequalOperands op leftType rightType loc)
      else
        match ← operatorType op loc with
        | ([leftParam, rightParam], result) => do
          expect (.leftOperand op) leftParam leftType left.location
          expect (.rightOperand op) rightParam rightType right.location
          pure result
        | (params, _) => throw (.arityMismatch op params.length 2 loc)
  | .ifThen _ condition thenBranch => do
    let conditionType ← check condition
    expect .condition .bool conditionType condition.location
    let thenType ← check thenBranch
    expect .thenBranch .unit thenType thenBranch.location
    pure .unit
  | .ifElse _ condition thenBranch elseBranch => do
    let conditionType ← check condition
    expect .condition .bool conditionType condition.location
    let thenType ← check thenBranch
    let elseType ← check elseBranch
    if thenType = elseType then pure thenType
    else throw (.branchMismatch thenType elseType elseBranch.location)
  | .call _ function arguments => do
    match ← check function with
    | .func params result => do
      if params.length = arguments.length then do
        checkArguments (calleeName function) 1 params arguments
        pure result
      else
        throw (.arityMismatch (calleeName function) params.length arguments.length
          function.location)
    | found => throw (.notAFunction found function.location)
  | .var _ n value => do
    let ty ← check value
    define n ty
    pure ty
  | .block _ statements => inScope (checkStatements .unit statements)

/-- Check arguments, counted from `number`, against parameters. -/
def checkArguments (function : String) (number : Nat) : List Ty → List Expr → Check Unit
  | param :: params, argument :: arguments => do
    let found ← check argument
    expect (.argument number function) param found argument.location
    checkArguments function (number + 1) params arguments
  | _, _ => pure ()

/-- The type of the last of some statements, `last` when there are none. -/
def checkStatements (last : Ty) : List Expr → Check Ty
  | [] => pure last
  | statement :: rest => do
    let ty ← check statement
    checkStatements ty rest

end

/-! ## Whole programs -/

/-- The scope that programs are checked in: every builtin with a type. -/
def rootScopes : Scopes Ty :=
  .ofList (Builtin.all.filterMap fun b => b.signature?.map fun ty => (b.name, ty))

/-- The type of a program. -/
def typeOf (program : Expr) : Except TypeError Ty :=
  match check program rootScopes with
  | .ok ty _ => .ok ty
  | .error e _ => .error e

end ExprLang.Typing
