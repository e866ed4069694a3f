/-
  TOKENS: the words of the language, each with its kind, its spelling and where it stands.

  The grammar mostly looks at the spelling alone (`Token.is`), whatever the kind.  The one
  exception is the kind `endOfInput`, which is spelled like nothing: it marks the place where the
  input is used up.
-/
import ExprLang.Location

namespace ExprLang

/-- The classes of tokens. -/
inductive TokenKind where
  | identifier
  | integer
  | boolean
  | operator
  | punctuation
  | endOfInput
deriving DecidableEq

/-- A word of the language at a place. -/
structure Token where
  kind : TokenKind
  text : String
  location : Location
deriving DecidableEq

namespace Token

/-- The marker behind the last token. -/
def endAt (location : Location) : Token := ⟨.endOfInput, "", location⟩

/-- Whether this is a real token spelled exactly `text`. -/
def is (t : Token) (text : String) : Bool :=
  t.kind ≠ .endOfInput && t.text = text

/-- Whether this is a real token with one of these spellings. -/
def isAny (t : Token) (texts : List String) : Bool :=
  texts.any t.is

/-- The spelling of a real token; the end marker has none. -/
def spelling? (t : Token) : Option String :=
  if t.kind = .endOfInput then none else some t.text

/-- How a message names a spelling that was found. -/
def describeSpelling : Option String → String
  | some text => "\"" ++ text ++ "\""
  | none => "end of input"

/-- How a message names this token. -/
def describe (t : Token) : String := describeSpelling t.spelling?

end Token

/-- The words that are spelled like names but belong to the grammar. -/
def keywords : List String := ["if", "then", "else", "var", "not", "and", "or"]

end ExprLang
