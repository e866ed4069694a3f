/-
  LINES of a text, as error reports number and show them.

  More characters end a line here than in the language itself: form feed, next line and the
  separators of Unicode do, and so does a carriage return, alone or with a line feed behind it.
  A line keeps its end, so the lines of a text make it up (`flatten_splitLines`).  A text that
  ends with its last line has no empty line behind it; the empty text is one empty line.
-/
namespace ExprLang

/-- Characters that end a line by themselves. -/
def endsLine (c : Char) : Bool :=
  ['\n', '\x0b', '\x0c', '\r', '\u0085', '\u2028', '\u2029'].contains c

/-- The lines of a text, each with its end. -/
def splitLines : List Char → List (List Char)
  | [] => []
  | c :: rest =>
    if endsLine c ∧ ¬(c = '\r' ∧ rest.head? = some '\n') then [c] :: splitLines rest
    else
      match splitLines rest with
      | [] => [[c]]
      | line :: more => (c :: line) :: more

theorem flatten_splitLines (text : List Char) : (splitLines text).flatten = text := by
  induction text with
  | nil => rfl
  | cons c rest ih =>
    unfold splitLines
    split
    · simp [ih]
    · -- the character joins the first line of the rest, if there is one
      split
      · rename_i none
        simp [none] at ih
        simp [← ih]
      · rename_i line more lines
        simp [lines] at ih
        simp [← ih]

/-- A line of a text: its number from 1, the offset of its first character, and its characters. -/
structure Line where
  number : Nat
  start : Nat
  text : List Char

namespace Line

/-- The offset behind the last character of a line, its end included. -/
def stop (line : Line) : Nat := line.start + line.text.length

/-- Number some lines, the first of which has this number and starts at this offset. -/
def numberFrom (number start : Nat) : List (List Char) → List Line
  | [] => []
  | text :: rest => ⟨number, start, text⟩ :: numberFrom (number + 1) (start + text.length) rest

/-- The lines of a text. -/
def ofText (text : List Char) : List Line :=
  numberFrom 1 0 (if text = [] then [[]] else splitLines text)

/-- The line that holds the character at an offset.  The offset behind the last character belongs
    to the last line; there is none further on. -/
def at? (text : List Char) (offset : Nat) : Option Line :=
  if offset ≤ text.length then ((ofText text).filter (·.start ≤ offset)).getLast? else none

end Line

/-- The lines of a text that end with a line feed, or with a carriage return and a line feed.  Each
    comes without its end. -/
def plainLines : List Char → List (List Char)
  | [] => []
  | c :: rest =>
    if c = '\n' then [] :: plainLines rest
    else if c = '\r' ∧ rest.head? = some '\n' then plainLines rest
    else
      match plainLines rest with
      | [] => [[c]]
      | line :: more => (c :: line) :: more

end ExprLang
