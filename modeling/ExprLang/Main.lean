/-
  The program itself: reads its file, and writes what `CommandLine.execute` says.
-/
import ExprLang.CommandLine

namespace ExprLang.CommandLine

/-- The number of a system error, which some calls hand out negated. -/
def systemCode (code : UInt32) : UInt32 := if code < 0x80000000 then code else 0 - code

/-- Why the system could not read a file. -/
def FileError.ofSystem (e : IO.Error) : FileError :=
  match e with
  | .noFileOrDirectory .. => .notFound
  | .permissionDenied .. => .other "Permission denied (os error 13)"
  | .inappropriateType _ code _ =>
    if systemCode code = 20 then .notADirectory
    else if systemCode code = 21 then .isADirectory
    else .other (toString e)
  | e => .other (toString e)

/-- Read a file that has to be UTF-8 text. -/
def readText (path : String) : IO (Except FileError String) := do
  try
    let bytes ← IO.FS.readBinFile path
    match String.fromUTF8? bytes with
    | some text => pure (.ok text)
    | none => pure (.error .notText)
  catch e => pure (.error (.ofSystem e))

/-- Run the program on its arguments. -/
def start (args : List String) : IO UInt32 := do
  let contents ← match Request.ofArgs? args with
    | some request => readText request.file
    | none => pure (.error .notFound)
  let outcome := execute (fun _ => contents) args
  (← IO.getStdout).putStr outcome.stdout
  (← IO.getStderr).putStr outcome.stderr
  pure outcome.exitCode

end ExprLang.CommandLine

/-- The entry point. -/
def main (args : List String) : IO UInt32 := ExprLang.CommandLine.start args
