/-
  CODE: a program as a flat list of instructions.

  Instructions load constants into variables, copy them, call builtins and jump to labels.  The
  variables `unit` and those named like the builtins are RESERVED: code reads them without ever
  writing them.

  `Instr.reads` and `Instr.writes` say which variables an instruction touches; `listing` is the
  text of a piece of code, one instruction a line.
-/
import ExprLang.Location
import ExprLang.Value

namespace ExprLang

/-- A variable of the code. -/
structure Var where
  name : String
deriving DecidableEq

/-- A place in the code to jump to. -/
structure Label where
  name : String
deriving DecidableEq

/-- The variable that stands for "no value". -/
def Var.unit : Var := ⟨unitName⟩

/-- What an instruction does. -/
inductive Action where
  | loadInt (value : Int64) (dest : Var)
  | loadBool (value : Bool) (dest : Var)
  | copy (source dest : Var)
  | call (callee : Var) (arguments : List Var) (dest : Var)
  | label (label : Label)
  | jump (target : Label)
  | branch (condition : Var) (thenTarget elseTarget : Label)
deriving DecidableEq

/-- An action with the place in the source that it comes from. -/
structure Instr where
  action : Action
  location : Location
deriving DecidableEq

/-! ## What an instruction touches -/

namespace Instr

/-- The variables that an instruction reads. -/
def reads (i : Instr) : List Var :=
  match i.action with
  | .copy source _ => [source]
  | .call callee arguments _ => callee :: arguments
  | .branch condition _ _ => [condition]
  | _ => []

/-- The variable that an instruction writes. -/
def writes (i : Instr) : Option Var :=
  match i.action with
  | .loadInt _ dest => some dest
  | .loadBool _ dest => some dest
  | .copy _ dest => some dest
  | .call _ _ dest => some dest
  | _ => none

/-- The label that an instruction defines. -/
def defines (i : Instr) : Option Label :=
  match i.action with
  | .label l => some l
  | _ => none

/-- The labels that an instruction may jump to. -/
def targets (i : Instr) : List Label :=
  match i.action with
  | .jump target => [target]
  | .branch _ thenTarget elseTarget => [thenTarget, elseTarget]
  | _ => []

/-- Whether an instruction is a copy, the only one that may write a variable again. -/
def isCopy (i : Instr) : Bool :=
  match i.action with
  | .copy _ _ => true
  | _ => false

end Instr

/-! ## Text -/

/-- The text of a label. -/
def Label.text (l : Label) : String := "Label(" ++ l.name ++ ")"

/-- The text of an instruction. -/
def Instr.text (i : Instr) : String :=
  match i.action with
  | .loadInt value dest => "LoadIntConst(" ++ Decimal.ofInt64 value ++ ", " ++ dest.name ++ ")"
  | .loadBool value dest => "LoadBoolConst(" ++ boolText value ++ ", " ++ dest.name ++ ")"
  | .copy source dest => "Copy(" ++ source.name ++ ", " ++ dest.name ++ ")"
  | .call callee arguments dest =>
    "Call(" ++ callee.name ++ ", [" ++ ", ".intercalate (arguments.map Var.name) ++ "], "
      ++ dest.name ++ ")"
  | .label l => l.text
  | .jump target => "Jump(" ++ target.text ++ ")"
  | .branch condition thenTarget elseTarget =>
    "CondJump(" ++ condition.name ++ ", " ++ thenTarget.text ++ ", " ++ elseTarget.text ++ ")"

/-- The text of a piece of code, one instruction a line. -/
def listing (code : List Instr) : String := String.join (code.map fun i => i.text ++ "\n")

end ExprLang
