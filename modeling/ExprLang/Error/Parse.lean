/-
  ERRORS of reading tokens into a tree.

  Each one blames a token and stands where that token does.  When the input ends too early there
  is no token to blame: the error then stands at the last one, and its report says `EOF`.
-/
import ExprLang.Report
import ExprLang.Token
import ExprLang.Text.Decimal

namespace ExprLang

/-- How deeply expressions may nest. -/
def maxDepth : Nat := 64

/-- What the grammar wanted in place of the token that it found. -/
inductive Wanted where
  | token (text : String)
  | name
  | operand
  | argumentEnd
  | statementEnd
deriving DecidableEq

namespace Wanted

/-- How a message names what was wanted. -/
def describe : Wanted → String
  | .token text => "\"" ++ text ++ "\""
  | .name => "an identifier"
  | .operand => "\"(\", \"\x7b\", \"if\", a literal or an identifier"
  | .argumentEnd => "\",\" or \")\""
  | .statementEnd => "\";\" or \"\x7d\""

end Wanted

/-- Why a list of tokens is not a program. -/
inductive ParseError where
  | expected (wanted : Wanted) (found : Option String) (location : Location)
  | missingSemicolon (found : String) (location : Location)
  | trailingToken (found : String) (location : Location)
  | invalidAssignmentTarget (location : Location)
  | integerOutOfRange (literal : String) (location : Location)
  | misplacedDeclaration (location : Location)
  | reservedWord (word : String) (location : Location)
  | tooDeep (location : Location)
deriving DecidableEq

namespace ParseError

/-- The place of the error. -/
def location : ParseError → Location
  | .expected _ _ loc => loc
  | .missingSemicolon _ loc => loc
  | .trailingToken _ loc => loc
  | .invalidAssignmentTarget loc => loc
  | .integerOutOfRange _ loc => loc
  | .misplacedDeclaration loc => loc
  | .reservedWord _ loc => loc
  | .tooDeep loc => loc

/-- What went wrong, without the place. -/
def complaint : ParseError → String
  | .expected wanted found _ =>
    "expected " ++ wanted.describe ++ ", found " ++ Token.describeSpelling found
  | .missingSemicolon found _ => "expected \";\" between statements, found \"" ++ found ++ "\""
  | .trailingToken found _ => "unexpected trailing token \"" ++ found ++ "\""
  | .invalidAssignmentTarget _ => "only a variable can be assigned to"
  | .integerOutOfRange literal _ => "integer literal " ++ literal ++ " does not fit in 64 bits"
  | .misplacedDeclaration _ => "variables can only be declared inside a block"
  | .reservedWord word _ => "\"" ++ word ++ "\" is a keyword and cannot be used as a name"
  | .tooDeep _ => "expression nests more than " ++ toString maxDepth ++ " levels deep"

/-- The report of this error. -/
def report (e : ParseError) : Report :=
  match e with
  | .expected wanted found _ =>
    { location := e.location
      code := if found = none then "EOF" else "Syntax Error"
      message := "expected " ++ wanted.describe
      label := "expected " ++ Report.wanted wanted.describe ++ " but found "
        ++ Report.found (Token.describeSpelling found) }
  | .missingSemicolon found _ =>
    { location := e.location
      code := "Syntax Error"
      message := "missing semicolon between statements"
      label := "expected " ++ Report.wanted ";" ++ " before " ++ Report.found found
      note := some "`;` may only be left out after an if, a block, a call or a `var`" }
  | .trailingToken found _ =>
    { location := e.location
      code := "Syntax Error"
      message := "unexpected trailing token"
      label := Report.found found ++ " after the end of the expression"
      note := some "wrap several expressions in a block: \x7b a; b \x7d" }
  | .invalidAssignmentTarget _ =>
    { location := e.location
      code := "Syntax Error"
      message := "invalid assignment target"
      label := "the left side of this `=` is not a variable" }
  | .integerOutOfRange literal _ =>
    { location := e.location
      code := "Syntax Error"
      message := "integer literal out of range"
      label := Report.found literal ++ " does not fit in an Int"
      note := some ("the largest Int is " ++ Decimal.ofInt64 Int64.maxValue) }
  | .misplacedDeclaration _ =>
    { location := e.location
      code := "Syntax Error"
      message := "variable declaration outside of a block"
      label := Report.wanted "var" ++ " is only allowed as a block statement" }
  | .reservedWord word _ =>
    { location := e.location
      code := "Syntax Error"
      message := "keyword used as a name"
      label := Report.found word ++ " is a keyword" }
  | .tooDeep _ =>
    { location := e.location
      code := "Syntax Error"
      message := "expression nested too deeply"
      label := "nesting passes " ++ Report.found (toString maxDepth) ++ " levels here" }

end ParseError
end ExprLang
