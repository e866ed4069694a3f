/-
  ERROR REPORTS: what is told about an error besides its one-line message.

  A `Report` points at one place of the source: a code and a message for the heading, a label
  for the place itself, and perhaps a note.  `Report.Layout` draws it.  Words of a label that
  quote the program are set off in bold and in colour: yellow for what was wanted, red for what
  was found.
-/
import ExprLang.Location

namespace ExprLang

/-- What an error report says, and about which place. -/
structure Report where
  location : Location
  code : String
  message : String
  label : String
  note : Option String := none

namespace Report

/-- Terminal escape: set the rendition that `code` names. -/
def rendition (code : String) : String := "\x1b[" ++ code ++ "m"

/-- Text in one rendition, after which the terminal is back to normal. -/
def rendered (code : String) (text : String) : String :=
  rendition code ++ text ++ rendition "0"

/-- Bold red: what was found, or is at fault. -/
def found (text : String) : String := rendered "1" (rendered "31" text)

/-- Bold yellow: what was wanted. -/
def wanted (text : String) : String := rendered "1" (rendered "33" text)

end Report
end ExprLang
