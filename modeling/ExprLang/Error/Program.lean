/-
  ERRORS of a whole program, whichever stage they come from.

  `message` is the one line that names an error: its place, where it has one, and what went wrong.
-/
import ExprLang.Error.Lex
import ExprLang.Error.Parse
import ExprLang.Error.Type
import ExprLang.Error.Lowering
import ExprLang.Error.Runtime

namespace ExprLang

/-- Why a program was not compiled, or stopped running.  `malformed` lists what a last look at its
    code finds wrong: a program that assigns to a builtin function comes to this, although its types
    are right. -/
inductive ProgramError where
  | lex (e : LexError)
  | parse (e : ParseError)
  | type (e : TypeError)
  | lowering (e : LoweringError)
  | runtime (e : RuntimeError)
  | malformed (problems : List String)
deriving DecidableEq

/-- A complaint with its place in front. -/
def located (location : Location) (complaint : String) : String :=
  location.text ++ ": " ++ complaint

namespace ProgramError

/-- The place of the error, if it has one. -/
def location? : ProgramError → Option Location
  | .lex e => some e.location
  | .parse e => some e.location
  | .type e => some e.location
  | .lowering e => some e.location
  | .runtime e => some e.location
  | .malformed _ => none

/-- The error in one line. -/
def message : ProgramError → String
  | .lex e => located e.location e.complaint
  | .parse e => located e.location e.complaint
  | .type e => located e.location e.complaint
  | .lowering e => located e.location e.complaint
  | .runtime e => located e.location e.complaint
  | .malformed problems => "generated IR is malformed: " ++ "; ".intercalate problems

/-- The report of the error.  One without a place is shown at the start of the text. -/
def report : ProgramError → Report
  | .lex e => e.report
  | .parse e => e.report
  | .type e => e.report
  | .lowering e => e.report
  | .runtime e => e.report
  | .malformed problems =>
    { location := .start
      code := "Internal Error"
      message := "generated IR is malformed"
      label := "\n".intercalate problems }

end ProgramError
end ExprLang
