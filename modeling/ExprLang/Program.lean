/-
  PROGRAMS from source text to result.

  `compile` reads a text, checks its type and gives its code, after making sure that the code is
  valid.  `run` does the same up to the type and evaluates the tree itself.  A text without tokens
  is a program too: it does nothing, and its value is unit.
-/
import ExprLang.Token.Lexer
import ExprLang.Expr.Grammar
import ExprLang.Typing
import ExprLang.Eval
import ExprLang.Code.Lowering
import ExprLang.Code.Validity
import ExprLang.Error.Program

namespace ExprLang

/-- The tree of a source text; none when it has no tokens. -/
def readProgram (source : String) : Except ProgramError (Option Expr) :=
  match tokenize source with
  | .error e => .error (.lex e)
  | .ok tokens =>
    match Grammar.parse tokens with
    | .error e => .error (.parse e)
    | .ok tree => .ok tree

/-- The tree of a source text and its type. -/
def checkProgram (source : String) : Except ProgramError (Option (Expr × Ty)) :=
  match readProgram source with
  | .error e => .error e
  | .ok none => .ok none
  | .ok (some tree) =>
    match Typing.typeOf tree with
    | .error e => .error (.type e)
    | .ok ty => .ok (some (tree, ty))

/-- A program with its type and code. -/
structure Compiled where
  tree : Option Expr
  ty : Ty
  code : List Instr
  /-- The names that the code uses without defining them. -/
  reserved : List String

/-- Compile a source text. -/
def compile (source : String) : Except ProgramError Compiled :=
  match checkProgram source with
  | .error e => .error e
  | .ok none => .ok ⟨none, .unit, [], reservedNames⟩
  | .ok (some (tree, ty)) =>
    match Lowering.generate reservedNames tree ty with
    | .error e => .error (.lowering e)
    | .ok code =>
      match Validity.problems code reservedNames with
      | [] => .ok ⟨some tree, ty, code, reservedNames⟩
      | problems => .error (.malformed (problems.map Problem.text))

/-- Run a source text: its value or what stopped it, and the output after `output`. -/
def run (source : String) (output : Output) : Except ProgramError Value × Output :=
  match checkProgram source with
  | .error e => (.error e, output)
  | .ok none => (.ok .unit, output)
  | .ok (some (tree, _)) =>
    match Eval.interpret tree output with
    | (.ok v, output) => (.ok v, output)
    | (.error e, output) => (.error (.runtime e), output)

end ExprLang
