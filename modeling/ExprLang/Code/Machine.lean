/-
  THE MACHINE: what code means.

  The machine keeps a value for every variable written so far, and the output.  It starts with the
  reserved variables — each builtin under its name, and unit — and goes through the code from the
  front: loads, copies and calls write their variable, labels do nothing, and a jump goes on at the
  label that it names.  It has FINISHED when it runs off the end of the code.

  Code that is not valid may leave the machine stuck: at a variable that nothing has written, a
  callee that is no builtin, a condition that is no Boolean, a label that is not there.  A builtin
  that fails stops it too.  Code may jump backwards, so `run` is told how many instructions it may
  execute.
-/
import ExprLang.Code

namespace ExprLang.Machine

/-- The values of the variables that hold one. -/
abbrev Store := Var → Option Value

/-- The store that code starts with. -/
def Store.start : Store := fun v =>
  if v = .unit then some .unit else (Builtin.named? v.name).map Value.builtin

/-- Write a variable. -/
def Store.set (store : Store) (v : Var) (value : Value) : Store := fun w =>
  if w = v then some value else store w

/-- The machine between two instructions: the position of the next one, the variables, the
    output. -/
structure State where
  position : Nat := 0
  store : Store := .start
  output : Output := {}

/-- Why an instruction cannot be executed. -/
inductive Trap where
  | unwritten (v : Var)
  | notABuiltin (callee : Var)
  | notABool (condition : Var)
  | noSuchLabel (target : Label)
  | fault (cause : Fault)
deriving DecidableEq

/-! ## One instruction -/

/-- The value of a variable. -/
def State.value (s : State) (v : Var) : Except Trap Value :=
  match s.store v with
  | some value => .ok value
  | none => .error (.unwritten v)

/-- The values of some variables. -/
def State.values (s : State) : List Var → Except Trap (List Value)
  | [] => .ok []
  | v :: rest => do
    let value ← s.value v
    let values ← s.values rest
    pure (value :: values)

/-- Write a variable and go on to the next instruction. -/
def State.write (s : State) (dest : Var) (value : Value) : State :=
  { s with position := s.position + 1, store := s.store.set dest value }

/-- Where a label is defined. -/
def labelPosition? (code : List Instr) (target : Label) : Option Nat :=
  code.findIdx? fun i => i.defines = some target

/-- Go on at a label. -/
def State.jump (s : State) (code : List Instr) (target : Label) : Except Trap State :=
  match labelPosition? code target with
  | some position => .ok { s with position }
  | none => .error (.noSuchLabel target)

/-- Execute one instruction of the code. -/
def step (code : List Instr) (action : Action) (s : State) : Except Trap State :=
  match action with
  | .loadInt n dest => .ok (s.write dest (.int n))
  | .loadBool b dest => .ok (s.write dest (.bool b))
  | .copy source dest => do
    let value ← s.value source
    pure (s.write dest value)
  | .call callee arguments dest => do
    match ← s.value callee with
    | .builtin b => do
      let args ← s.values arguments
      match b.apply args s.output with
      | .ok (value, output) => pure ({ s with output }.write dest value)
      | .error cause => throw (.fault cause)
    | _ => throw (.notABuiltin callee)
  | .label _ => .ok { s with position := s.position + 1 }
  | .jump target => s.jump code target
  | .branch condition thenTarget elseTarget => do
    match ← s.value condition with
    | .bool true => s.jump code thenTarget
    | .bool false => s.jump code elseTarget
    | _ => throw (.notABool condition)

/-! ## Many -/

/-- How a run ends: off the end of the code, at an instruction that cannot be executed, or before
    the next instruction when no more may be executed. -/
inductive Ending where
  | finished (s : State)
  | trapped (trap : Trap) (i : Instr) (s : State)
  | interrupted (s : State)

/-- Execute at most so many instructions. -/
def run (code : List Instr) : Nat → State → Ending
  | steps, s =>
    match code[s.position]?, steps with
    | none, _ => .finished s
    | some _, 0 => .interrupted s
    | some i, steps + 1 =>
      match step code i.action s with
      | .ok s => run code steps s
      | .error trap => .trapped trap i s

end ExprLang.Machine
