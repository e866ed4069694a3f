/-
  THE COMMAND LINE: what the program does with its arguments.

  It takes one file, and `--run` anywhere around it.  Without `--run` it prints the code of the
  program in the file, with it whatever the program prints and then the program's value, unless
  that is unit.  Errors are reported on the error stream and end it with code 1.

  Nothing here touches a file or a stream: the contents of the file come in, and what is to be
  written goes out.
-/
import ExprLang.Program
import ExprLang.Report.Layout

namespace ExprLang.CommandLine

/-- Why a file could not be read. -/
inductive FileError where
  | notFound
  | notADirectory
  | isADirectory
  | notText
  | other (message : String)
deriving DecidableEq

namespace FileError

/-- The text of a file error. -/
def text : FileError → String
  | notFound => "No such file or directory (os error 2)"
  | notADirectory => "Not a directory (os error 20)"
  | isADirectory => "Is a directory (os error 21)"
  | notText => "stream did not contain valid UTF-8"
  | other message => message

end FileError

/-- What the arguments ask for. -/
structure Request where
  file : String
  run : Bool
deriving DecidableEq

/-- Read the arguments: besides `--run` there has to be exactly one. -/
def Request.ofArgs? (args : List String) : Option Request :=
  match args.filter (· ≠ "--run") with
  | [file] => some ⟨file, args.contains "--run"⟩
  | _ => none

/-- How a run of the program ends. -/
structure Outcome where
  exitCode : UInt32
  stdout : String
  stderr : String
deriving DecidableEq

/-- What is said about arguments that ask for nothing. -/
def usage : String := "usage: exprc <file> [--run]"

namespace Outcome

/-- A run that did what it was asked. -/
def success (stdout : String) : Outcome := ⟨0, stdout, ""⟩

/-- A run that ended with an error. -/
def failure (stdout stderr : String) : Outcome := ⟨1, stdout, stderr⟩

/-- The arguments ask for nothing. -/
def wrongUsage : Outcome := failure "" (usage ++ "\n")

/-- The file could not be read. -/
def unreadable (file : String) (e : FileError) : Outcome :=
  failure "" (Report.found "error:" ++ " could not read " ++ file ++ ": " ++ e.text ++ "\n")

/-- The program in the file has an error. -/
def reported (stdout file source : String) (e : ProgramError) : Outcome :=
  failure stdout (e.report.render file source)

end Outcome

/-- The line that shows the value of a program.  Unit is not shown. -/
def valueLine (v : Value) : String := if v = .unit then "" else v.text ++ "\n"

/-- What a request does with the contents of its file. -/
def Request.perform (request : Request) (source : String) : Outcome :=
  if request.run then
    match ExprLang.run source {} with
    | (.ok v, output) => .success (output.text ++ valueLine v)
    | (.error e, output) => .reported output.text request.file source e
  else
    match compile source with
    | .ok compiled => .success (listing compiled.code)
    | .error e => .reported "" request.file source e

/-- What the program does with its arguments, given how files are read. -/
def execute (read : String → Except FileError String) (args : List String) : Outcome :=
  match Request.ofArgs? args with
  | none => .wrongUsage
  | some request =>
    match read request.file with
    | .ok source => request.perform source
    | .error e => .unreadable request.file e

end ExprLang.CommandLine
