/-
  LOWERING: the code of a program.

  `lower` writes the instructions that compute an expression and names the variable that holds
  the value.  Conditionals, `and` and `or` become jumps, and both paths copy what they found into
  one variable; everything else is written in the order in which it is evaluated.

  A declared variable of the program lives in one variable of the code, which assignments
  overwrite.  So an operand that is such a variable is copied out first when a later operand
  `assigns`: the call then sees the value from before the assignment.

  The value of a conditional without else, of a unit literal and of an empty block is the
  variable `unit`, for which no instruction is needed.
-/
import ExprLang.Code.Draft
import ExprLang.Ty

namespace ExprLang.Lowering

/-! ## What may be overwritten -/

mutual

/-- Whether evaluating an expression may run an assignment. -/
def assigns : Expr → Bool
  | .int _ _ => false
  | .bool _ _ => false
  | .unit _ => false
  | .name _ _ => false
  | .unary _ _ operand => assigns operand
  | .binary _ op left right => op == "=" || assigns left || assigns right
  | .ifThen _ condition thenBranch => assigns condition || assigns thenBranch
  | .ifElse _ condition thenBranch elseBranch =>
    assigns condition || assigns thenBranch || assigns elseBranch
  | .call _ function arguments => assigns function || assignsAny arguments
  | .var _ _ value => assigns value
  | .block _ statements => assignsAny statements

/-- Whether evaluating one of some expressions may run an assignment. -/
def assignsAny : List Expr → Bool
  | [] => false
  | e :: rest => assigns e || assignsAny rest

end

/-! ## Small steps -/

/-- A step of lowering. -/
abbrev Lower (α : Type) := EStateM LoweringError Draft α

/-- A new variable. -/
def mint : Lower Var := modifyGet Draft.mint

/-- A new label. -/
def mintLabel (stem : String) : Lower Label := modifyGet (Draft.mintLabel stem)

/-- Write an instruction. -/
def emit (action : Action) (loc : Location) : Lower Unit := modify (Draft.emit action loc)

/-- The variable that a name is bound to. -/
def lookup (name : String) (loc : Location) : Lower Var := fun d =>
  match d.scopes.lookup name with
  | some v => .ok v d
  | none => .error (.undefinedName name loc) d

/-- Bind a name to a variable of its own, which assignments may overwrite. -/
def declare (name : String) (v : Var) : Lower Unit :=
  modify fun d => { d with scopes := d.scopes.define name v, declared := v :: d.declared }

/-- Call a builtin; the variable of the result is new. -/
def call (callee : Var) (arguments : List Var) (loc : Location) : Lower Var := do
  let dest ← mint
  emit (.call callee arguments dest) loc
  pure dest

/-- The variable to read an operand from: a copy of it when it may be overwritten before the call
    reads it. -/
def settle (v : Var) (overwrittenLater : Bool) (loc : Location) : Lower Var := do
  let d ← get
  if d.declared.contains v && overwrittenLater then do
    let snapshot ← mint
    emit (.copy v snapshot) loc
    pure snapshot
  else pure v

/-- Run a step in a scope of its own. -/
def inScope {α : Type} (act : Lower α) : Lower α := within Draft.push Draft.pop act

/-! ## Expressions -/

mutual

/-- Write the code of an expression, and name the variable that holds its value. -/
def lower : Expr → Lower Var
  | .int loc n => do
    let dest ← mint
    emit (.loadInt n dest) loc
    pure dest
  | .bool loc b => do
    let dest ← mint
    emit (.loadBool b dest) loc
    pure dest
  | .unit _ => pure .unit
  | .name loc n => lookup n loc
  | .unary loc op operand => do
    let callee ← lookup (Expr.unaryName op) loc
    let v ← lower operand
    call callee [v] loc
  | .binary loc op left right =>
    if op = "=" then
      match left with
      | .name nameLoc n => do
        let cell ← lookup n nameLoc
        let v ← lower right
        emit (.copy v cell) loc
        pure cell
      | _ => throw (.notAssignable left.location)
    else if op = "and" ∨ op = "or" then do
      let isOr := decide (op = "or")
      let v ← lower left
      let rightLabel ← mintLabel (op ++ "_right")
      let skipLabel ← mintLabel (op ++ "_skip")
      let endLabel ← mintLabel (op ++ "_end")
      emit (if isOr then .branch v skipLabel rightLabel else .branch v rightLabel skipLabel) loc
      let result ← mint
      emit (.label rightLabel) loc
      let w ← lower right
      emit (.copy w result) loc
      emit (.jump endLabel) loc
      emit (.label skipLabel) loc
      let decided ← mint
      emit (.loadBool isOr decided) loc
      emit (.copy decided result) loc
      emit (.label endLabel) loc
      pure result
    else do
      let callee ← lookup op loc
      let v ← lower left
      let v ← settle v (assigns right) left.location
      let w ← lower right
      call callee [v, w] loc
  | .ifThen loc condition thenBranch => do
    let v ← lower condition
    let thenLabel ← mintLabel "then"
    let endLabel ← mintLabel "if_end"
    emit (.branch v thenLabel endLabel) loc
    emit (.label thenLabel) loc
    let _ ← lower thenBranch
    emit (.label endLabel) loc
    pure .unit
  | .ifElse loc condition thenBranch elseBranch => do
    let v ← lower condition
    let thenLabel ← mintLabel "then"
    let elseLabel ← mintLabel "else"
    let endLabel ← mintLabel "if_end"
    emit (.branch v thenLabel elseLabel) loc
    emit (.label thenLabel) loc
    let thenVar ← lower thenBranch
    -- a unit branch has nothing to merge
    if thenVar = .unit then do
      emit (.jump endLabel) loc
      emit (.label elseLabel) loc
      let _ ← lower elseBranch
      emit (.label endLabel) loc
      pure .unit
    else do
      let result ← mint
      emit (.copy thenVar result) loc
      emit (.jump endLabel) loc
      emit (.label elseLabel) loc
      let elseVar ← lower elseBranch
      emit (.copy elseVar result) loc
      emit (.label endLabel) loc
      pure result
  | .call loc function arguments => do
    let callee ← lower function
    let callee ← settle callee (assignsAny arguments) function.location
    let vs ← lowerArguments arguments
    call callee vs loc
  | .var loc n value => do
    let v ← lower value
    let cell ← mint
    emit (.copy v cell) loc
    declare n cell
    pure cell
  | .block _ statements => inScope (lowerStatements .unit statements)

/-- Write the code of some operands, from left to right. -/
def lowerArguments : List Expr → Lower (List Var)
  | [] => pure []
  | argument :: rest => do
    let v ← lower argument
    let v ← settle v (assignsAny rest) argument.location
    let vs ← lowerArguments rest
    pure (v :: vs)

/-- Write the code of some statements; the value is the last one's, `last` when there are none. -/
def lowerStatements (last : Var) : List Expr → Lower Var
  | [] => pure last
  | statement :: rest => do
    let v ← lower statement
    lowerStatements v rest

end

/-! ## Whole programs -/

/-- The name of the builtin that prints values of a type, if there is one. -/
def printer? : Ty → Option String
  | .int => some Builtin.printInt.name
  | .bool => some Builtin.printBool.name
  | _ => none

/-- Write the code of a program of type `ty`.  A value that can be printed is. -/
def lowerProgram (program : Expr) (ty : Ty) : Lower Unit := do
  let v ← lower program
  match printer? ty with
  | some name => do
    let callee ← lookup name program.location
    let _ ← call callee [v] program.location
  | none => pure ()

/-- The code of a program of type `ty` that may use the reserved names. -/
def generate (reserved : List String) (program : Expr) (ty : Ty) :
    Except LoweringError (List Instr) :=
  match lowerProgram program ty (Draft.start reserved) with
  | .ok _ d => .ok d.code.toList
  | .error e _ => .error e

end ExprLang.Lowering
