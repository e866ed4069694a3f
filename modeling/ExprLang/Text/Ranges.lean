/-
  RANGES: tables of characters.

  A table lists ranges of code points, first and last included, in increasing order.  Each table
  of this library holds the characters with one property of Unicode, and says of which edition:
  quoting and width follow different ones, so they do not share their tables.
-/
namespace ExprLang

/-- Whether a character lies in one of the ranges of a table. -/
def inRanges (table : List (Nat × Nat)) (c : Char) : Bool :=
  table.any fun range => range.1 ≤ c.toNat && c.toNat ≤ range.2

end ExprLang
