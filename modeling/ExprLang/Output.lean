/-
  OUTPUT: the lines that a program has printed.

  A program prints whole lines.  The place they go to may have `room` for only so many: then the
  first line too many is refused, and so is every later one.
-/
namespace ExprLang

/-- What has been printed, first line first, and how many more lines are accepted; without `room`
    there is no limit. -/
structure Output where
  lines : List String := []
  room : Option Nat := none

namespace Output

/-- Nothing printed yet, and room for so many lines. -/
def withRoom (room : Option Nat) : Output := { room }

/-- Print a line, unless there is no room for it. -/
def print? (line : String) (out : Output) : Option Output :=
  match out.room with
  | none => some { out with lines := out.lines ++ [line] }
  | some 0 => none
  | some (n + 1) => some { lines := out.lines ++ [line], room := some n }

/-- Print some lines, unless there is no room for all of them. -/
def printAll? (lines : List String) (out : Output) : Option Output :=
  lines.foldlM (fun out line => out.print? line) out

/-- The text of some lines, each ended by a line feed. -/
def textOf (lines : List String) : String := String.join (lines.map (· ++ "\n"))

/-- The whole text that was printed. -/
def text (out : Output) : String := textOf out.lines

end Output
end ExprLang
