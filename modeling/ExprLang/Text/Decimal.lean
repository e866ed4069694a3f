/-
  DECIMAL NUMERALS of 64-bit integers.

  Writing gives the shortest numeral, with a minus sign in front of a negative number.  Reading
  takes an optional sign and at least one digit, and refuses a number outside the 64-bit range
  instead of wrapping it.
-/
namespace ExprLang.Decimal

/-- The shortest numeral of an integer. -/
def ofInt : Int → String
  | .ofNat n => toString n
  | .negSucc n => "-" ++ toString (n + 1)

/-- The shortest numeral of a 64-bit integer. -/
def ofInt64 (n : Int64) : String := ofInt n.toInt

/-- The value of a non-empty run of digits. -/
def readNat? (digits : List Char) : Option Nat :=
  if digits ≠ [] ∧ digits.all Char.isDigit then some (Nat.ofDigitChars 10 digits 0) else none

/-- The value of digits behind an optional sign. -/
def readInt? : List Char → Option Int
  | '-' :: digits => (readNat? digits).map fun n => -(n : Int)
  | '+' :: digits => (readNat? digits).map Int.ofNat
  | digits => (readNat? digits).map Int.ofNat

/-- The 64-bit integer that a numeral stands for, if it is in range. -/
def readInt64? (text : String) : Option Int64 :=
  match readInt? text.toList with
  | some n =>
    if Int64.minValue.toInt ≤ n ∧ n ≤ Int64.maxValue.toInt then some (Int64.ofInt n) else none
  | none => none

end ExprLang.Decimal
