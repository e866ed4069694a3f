/-
  QUOTED CHARACTERS: how a message shows one character of the source.

  The character stands between single quotes.  What would not be seen there is written as an
  escape: `\0`, `\t`, `\r` and `\n` have one of their own, the single quote and the backslash are
  escaped because they would be misread, and every other character without a shape of its own is
  given by its code point in hexadecimal.  What has a shape is read off Unicode 17.
-/
import ExprLang.Text.Mark
import ExprLang.Text.Unassigned

namespace ExprLang

/-- Controls, format characters, separators other than the space, and private use. -/
def shapelessRanges : List (Nat × Nat) :=
  [(0x0, 0x1f), (0x7f, 0xa0), (0xad, 0xad), (0x600, 0x605), (0x61c, 0x61c), (0x6dd, 0x6dd),
   (0x70f, 0x70f), (0x890, 0x891), (0x8e2, 0x8e2), (0x1680, 0x1680), (0x180e, 0x180e),
   (0x2000, 0x200f), (0x2028, 0x202f), (0x205f, 0x2064), (0x2066, 0x206f), (0x3000, 0x3000),
   (0xe000, 0xf8ff), (0xfeff, 0xfeff), (0xfff9, 0xfffb), (0x110bd, 0x110bd), (0x110cd, 0x110cd),
   (0x13430, 0x1343f), (0x1bca0, 0x1bca3), (0x1d173, 0x1d17a), (0xe0001, 0xe0001),
   (0xe0020, 0xe007f), (0xf0000, 0xffffd), (0x100000, 0x10fffd)]

/-- Letters that stand for a missing consonant or vowel of a hangul syllable. -/
def fillerRanges : List (Nat × Nat) := [(0x115f, 0x1160), (0x3164, 0x3164), (0xffa0, 0xffa0)]

/-- Whether a character can be shown as itself. -/
def isShown (c : Char) : Bool :=
  !(inRanges shapelessRanges c || inRanges fillerRanges c || isMark c || isUnassigned c)

/-- The number in lower-case hexadecimal. -/
def hexadecimal (n : Nat) : String := String.ofList (Nat.toDigits 16 n)

/-- What stands for a character between single quotes. -/
def escapedChar (c : Char) : String :=
  if c = '\x00' then "\\0"
  else if c = '\t' then "\\t"
  else if c = '\r' then "\\r"
  else if c = '\n' then "\\n"
  else if c = '\x27' then "\\'"
  else if c = '\\' then "\\\\"
  else if isShown c then c.toString
  else "\\u\x7b" ++ hexadecimal c.toNat ++ "\x7d"

/-- A character between single quotes. -/
def quotedChar (c : Char) : String := "'" ++ escapedChar c ++ "'"

end ExprLang
