/-
  EVALUATION: the value of a program, and what it prints on the way.

  The state of the evaluator is the chain of scopes with the values of the names, and the output
  so far.  A block runs in a scope of its own.  Nothing is undone when an error stops the program.

  An operator is a name like any other and is looked up in the scopes BEFORE its operands are
  evaluated.  `and`, `or` and assignment are part of the language itself: the first two evaluate
  their right side only when the left one has not decided, and a binding of their names is never
  asked.
-/
import ExprLang.Expr
import ExprLang.Scopes
import ExprLang.Error.Runtime

namespace ExprLang.Eval

/-- What evaluation changes: the values of the names, and the output. -/
structure State where
  scopes : Scopes Value
  output : Output

namespace State

/-- Open a scope. -/
def push (s : State) : State := { s with scopes := s.scopes.push }

/-- Close a scope. -/
def pop (s : State) : State := { s with scopes := s.scopes.pop }

end State

/-- A step of evaluation. -/
abbrev Run (α : Type) := EStateM RuntimeError State α

/-! ## Small steps -/

/-- The value that a name is bound to. -/
def lookup (name : String) (loc : Location) : Run Value := fun s =>
  match s.scopes.lookup name with
  | some v => .ok v s
  | none => .error (.undefinedName name loc) s

/-- Bind a name in the innermost scope. -/
def define (name : String) (v : Value) : Run Unit := fun s =>
  .ok () { s with scopes := s.scopes.define name v }

/-- Overwrite the nearest binding of a name. -/
def assign (name : String) (v : Value) (loc : Location) : Run Unit := fun s =>
  match s.scopes.assign? name v with
  | some scopes => .ok () { s with scopes }
  | none => .error (.undefinedName name loc) s

/-- Insist on a builtin. -/
def asBuiltin (v : Value) (loc : Location) : Run Builtin :=
  match v with
  | .builtin b => pure b
  | v => throw (.notAFunction v.kind loc)

/-- Insist on a Boolean. -/
def asBool (v : Value) (loc : Location) : Run Bool :=
  match v with
  | .bool b => pure b
  | v => throw (.notABool v.kind loc)

/-- The builtin that an operator is bound to. -/
def operator (name : String) (loc : Location) : Run Builtin := do
  let v ← lookup name loc
  asBuiltin v loc

/-- Apply a builtin to values. -/
def apply (b : Builtin) (args : List Value) (loc : Location) : Run Value := fun s =>
  match b.apply args s.output with
  | .ok (v, output) => .ok v { s with output }
  | .error fault => .error (.fault fault loc) s

/-- Run a step in a scope of its own. -/
def inScope {α : Type} (act : Run α) : Run α := within State.push State.pop act

/-! ## Expressions -/

mutual

/-- The value of an expression. -/
def eval : Expr → Run Value
  | .int _ n => pure (.int n)
  | .bool _ b => pure (.bool b)
  | .unit _ => pure .unit
  | .name loc n => lookup n loc
  | .unary loc op operand => do
    let b ← operator (Expr.unaryName op) loc
    let v ← eval operand
    apply b [v] loc
  | .binary loc op left right =>
    if op = "=" then
      match left with
      | .name nameLoc n => do
        let v ← eval right
        assign n v nameLoc
        pure v
      | _ => throw (.notAssignable left.location)
    else if op = "and" ∨ op = "or" then do
      let v ← eval left
      let decided ← asBool v left.location
      if decided = decide (op = "or") then pure (.bool decided)
      else do
        let w ← eval right
        let result ← asBool w right.location
        pure (.bool result)
    else do
      let b ← operator op loc
      let v ← eval left
      let w ← eval right
      apply b [v, w] loc
  | .ifThen _ condition thenBranch => do
    let v ← eval condition
    let holds ← asBool v condition.location
    if holds then do
      let _ ← eval thenBranch
      pure .unit
    else pure .unit
  | .ifElse _ condition thenBranch elseBranch => do
    let v ← eval condition
    let holds ← asBool v condition.location
    if holds then eval thenBranch else eval elseBranch
  | .call loc function arguments => do
    let f ← eval function
    let b ← asBuiltin f function.location
    let args ← evalArguments arguments
    apply b args loc
  | .var _ n value => do
    let v ← eval value
    define n v
    pure v
  | .block _ statements => inScope (evalStatements .unit statements)

/-- The values of some expressions, from left to right. -/
def evalArguments : List Expr → Run (List Value)
  | [] => pure []
  | argument :: rest => do
    let v ← eval argument
    let vs ← evalArguments rest
    pure (v :: vs)

/-- The value of the last of some statements, `last` when there are none. -/
def evalStatements (last : Value) : List Expr → Run Value
  | [] => pure last
  | statement :: rest => do
    let v ← eval statement
    evalStatements v rest

end

/-! ## Whole programs -/

/-- The scope that programs run in: every builtin. -/
def rootScopes : Scopes Value := .ofList (Builtin.all.map fun b => (b.name, .builtin b))

/-- The value of a program, or what stopped it, and the output after `output`. -/
def interpret (program : Expr) (output : Output) : Except RuntimeError Value × Output :=
  match eval program ⟨rootScopes, output⟩ with
  | .ok v s => (.ok v, s.output)
  | .error e s => (.error e, s.output)

end ExprLang.Eval
