/-
  ERRORS of reading characters into tokens: a character that starts no token, and a comment that
  is never closed.  Either one stands where the offending text starts.
-/
import ExprLang.Report
import ExprLang.Text.Quoted

namespace ExprLang

/-- Why a text has no tokens. -/
inductive LexError where
  | unexpectedCharacter (character : Char) (location : Location)
  | unterminatedComment (location : Location)
deriving DecidableEq

namespace LexError

/-- The place of the error. -/
def location : LexError → Location
  | .unexpectedCharacter _ loc => loc
  | .unterminatedComment loc => loc

/-- What went wrong, without the place. -/
def complaint : LexError → String
  | .unexpectedCharacter c _ => "unexpected character " ++ quotedChar c
  | .unterminatedComment _ => "unterminated block comment"

/-- The report of this error. -/
def report : LexError → Report
  | .unexpectedCharacter c loc =>
    { location := loc
      code := "Lexical Error"
      message := "found a character that does not start any token"
      label := "unexpected character " ++ Report.found (quotedChar c)
      note := some "tokens are identifiers, integers, operators and ( ) \x7b \x7d , ;" }
  | .unterminatedComment loc =>
    { location := loc
      code := "EOF"
      message := "reached end of file inside a block comment"
      label := "comment opened here is never closed with " ++ Report.wanted "*/" }

end LexError
end ExprLang
