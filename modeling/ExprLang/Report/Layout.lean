/-
  LAYOUT of error reports.

  A report quotes one line of the source, underlines the span it is about and hangs its label on
  the middle of that span:

      [Type Error] Error: m
         ╭─[ main.expr:1:3 ]
         │
       1 │ 1 + true
         │   ┬
         │   ╰── l
         │
         │ Note: n
      ───╯

  The offsets of the span count bytes, but the layout reads them as numbers of CHARACTERS.  Behind
  text that is not ASCII the mark is therefore moved to the right, perhaps past its line.  A span
  that so ends in a later line than it starts in is drawn as a bracket around the two, with a gap
  for the lines between them:

       1 │ ╭─▶ €
       2 │ ├─▶ x
         │ │
         │ ╰────── l

  A mark behind the last line leaves the source out, and one past the end of the text everything
  but the heading.
-/
import ExprLang.Report
import ExprLang.Text.Lines
import ExprLang.Text.Width

namespace ExprLang.Report

/-! ## Pieces of text -/

/-- So many spaces. -/
def spaces (n : Nat) : String := String.ofList (List.replicate n ' ')

/-- A text filled up with spaces on the right. -/
def padRight (width : Nat) (text : String) : String := text ++ spaces (width - text.length)

/-- A text filled up with spaces on the left. -/
def padLeft (width : Nat) (text : String) : String := spaces (width - text.length) ++ text

/-! ## The line of the source -/

/-- A line without the white space at its end. -/
def trimEnd (text : List Char) : List Char :=
  (text.reverse.dropWhile isBlank).reverse

/-- The cells that a character takes when it is drawn at a column.  Tabs go on to the next
    multiple of four. -/
def drawnWidth (c : Char) (column : Nat) : Nat :=
  if c = '\t' then 4 - column % 4 else if isBlank c then 1 else charWidth c

/-- How a character is drawn at a column: white space as spaces. -/
def drawChar (c : Char) (column : Nat) : List Char :=
  if isBlank c then List.replicate (drawnWidth c column) ' ' else [c]

/-- How the characters from a column on are drawn. -/
def drawFrom (column : Nat) : List Char → List Char
  | [] => []
  | c :: rest => drawChar c column ++ drawFrom (column + 1) rest

/-- The cells that a column takes; one when no character stands there. -/
def widthAt (text : List Char) (column : Nat) : Nat :=
  match text[column]? with
  | some c => drawnWidth c column
  | none => 1

/-! ## The rows below it -/

/-- A column of a row: its first cell, and what fills the others. -/
def cells (width : Nat) (first filler : Char) : List Char :=
  match width with
  | 0 => []
  | n + 1 => first :: List.replicate n filler

/-- The columns that a label is about, and where it hangs. -/
structure Mark where
  first : Nat
  behind : Nat
  middle : Nat

namespace Mark

/-- Whether a column is underlined. -/
def covers (mark : Mark) (column : Nat) : Bool :=
  mark.first ≤ column && column < mark.behind

/-- The underline of a column. -/
def underlineAt (mark : Mark) (text : List Char) (column : Nat) : List Char :=
  let filler := if mark.covers column then '─' else ' '
  let first :=
    if column = mark.middle then (if mark.covers column then '┬' else '│') else filler
  cells (widthAt text column) first filler

/-- The part of the arm that leads from the underline to the label, at a column. -/
def armAt (mark : Mark) (text : List Char) (column : Nat) : List Char :=
  let filler := if mark.middle ≤ column then '─' else ' '
  let first := if column = mark.middle then '╰' else filler
  cells (widthAt text column) first filler

/-- A row that goes two columns past the mark. -/
def row (mark : Mark) (column : Nat → List Char) : String :=
  String.ofList ((List.range (mark.behind + 2)).flatMap column)

end Mark

/-- So many columns below a text, all filled with one character. -/
def filledRow (text : List Char) (columns : Nat) (filler : Char) : String :=
  String.ofList ((List.range columns).flatMap fun column =>
    cells (widthAt text column) filler filler)

/-! ## The whole report -/

/-- The heading of a report. -/
def heading (r : Report) : String :=
  rendered "31" ("[" ++ padRight 2 r.code ++ "] Error:") ++ " " ++ r.message ++ "\n"

/-- The rows of a note: the first line behind its title, the others below it. -/
def noteRows (margin : String) (note : String) : String :=
  match (plainLines note.toList).map String.ofList with
  | [] => ""
  | first :: rest =>
    margin ++ "Note: " ++ first ++ "\n"
      ++ String.join (rest.map fun line => margin ++ spaces 6 ++ line ++ "\n")

/-- The quoted line with the label below it. -/
def markedRows (r : Report) (line : Line) (span : Span) : String :=
  let number := toString line.number
  let margin := spaces (number.length + 2) ++ "│ "
  if line.stop < span.stop then margin ++ "\n"
  else
    let text := trimEnd line.text
    let mark : Mark :=
      ⟨span.start - line.start, span.stop - line.start, (span.start + span.stop) / 2 - line.start⟩
    " " ++ number ++ " │ " ++ String.ofList (drawFrom 0 text) ++ "\n"
      ++ margin ++ mark.row (mark.underlineAt text) ++ "\n"
      ++ margin ++ mark.row (mark.armAt text) ++ " " ++ r.label ++ "\n"

/-- The lines that a span starts and ends in, with a bracket beside them and the label behind its
    arm.  Where the span goes on past its last line, this one belongs to the gap. -/
def bracketRows (r : Report) (line last : Line) (span : Span) : String :=
  let number := toString last.number
  let margin := spaces (number.length + 2) ++ "│ "
  let text := trimEnd last.text
  let ends := span.stop ≤ last.stop
  " " ++ padLeft number.length (toString line.number) ++ " │ ╭─▶ "
    ++ String.ofList (drawFrom 0 (trimEnd line.text)) ++ "\n"
    ++ (if line.number + 1 < last.number ∨ ¬ends then
        spaces (number.length + 2) ++ "┆ ┆   \n"
      else "")
    ++ (if ends then
        " " ++ number ++ " │ ├─▶ " ++ String.ofList (drawFrom 0 text) ++ "\n"
          ++ margin ++ "│   " ++ filledRow text (last.text.length + 2) ' ' ++ "\n"
          ++ margin ++ "╰───" ++ filledRow text (last.text.length + 2) '─' ++ " " ++ r.label ++ "\n"
      else "")

/-- The quoted source, from the line that the span starts in to the one with its last character. -/
def quotation (r : Report) (line last : Line) (span : Span) : String :=
  if line.number = last.number then markedRows r line span else bracketRows r line last span

/-- What stands in front of a note, behind the margin: room for the bracket, if there is one.  Notes
    are drawn as if they stood in the first line, which a span from the start of the second one
    still touches. -/
def noteIndent (line last : Line) (span : Span) : String :=
  if line.number = last.number then ""
  else if line.number = 2 ∧ span.start = line.start then "│   "
  else spaces 4

/-- A report below its heading, when its span starts in one line and its last character stands in
    another, or in the same one. -/
def body (r : Report) (file : String) (line last : Line) (span : Span) : String :=
  let width := (toString last.number).length + 2
  let indent := spaces width
  let column := toString (span.start - line.start + 1)
  indent ++ "╭─[ " ++ file ++ ":" ++ toString line.number ++ ":" ++ column ++ " ]\n"
    ++ indent ++ "│\n"
    ++ quotation r line last span
    ++ (match r.note with
      | some note =>
        let margin := indent ++ "│ " ++ noteIndent line last span
        margin ++ "\n" ++ noteRows margin note
      | none => "")
    ++ String.ofList (List.replicate width '─') ++ "╯\n"

/-- The text of a report on a file with this source. -/
def render (r : Report) (file source : String) : String :=
  let text := source.toList
  let span := r.location.spanIn text
  -- an empty span ends in the line that it starts in
  match Line.at? text span.start, Line.at? text (max span.start (span.stop - 1)) with
  | some line, some last => r.heading ++ body r file line last span
  -- a span that starts or ends past the text is not drawn at all
  | _, _ => r.heading

end ExprLang.Report
