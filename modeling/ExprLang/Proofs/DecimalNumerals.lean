/-
  DECIMAL NUMERALS: what digits are worth, and how integers are written in them.

  The `value` of some digits is a sum of powers of ten, one for each digit, counted from the right.
  Reading goes from the left and multiplies by ten at every digit, which comes to the same
  (`ofDigitChars_eq_value`).

  An integer is written with the digits of its absolute value, behind a minus sign if it is negative
  (`toList_ofInt`), and reads back as itself (`readInt?_ofInt`).  So no two integers are written
  alike.
-/
import Mathlib.Data.List.Induction
import Mathlib.Data.Nat.Digits.Defs
import ExprLang.Proofs.Layout

namespace ExprLang.Decimal

/-! ## The value of digits -/

/-- What a digit is worth in the last place. -/
def worth (c : Char) : Nat := c.toNat - '0'.toNat

/-- What digits are worth together: the last one counts ones, the one in front of it tens, and so
    on. -/
def value (digits : List Char) : Nat := Nat.ofDigits 10 (digits.reverse.map worth)

/-- A digit at the end shifts the others by one place. -/
theorem value_concat (digits : List Char) (c : Char) :
    value (digits ++ [c]) = 10 * value digits + worth c := by
  simp only [value, List.reverse_append, List.reverse_singleton, List.singleton_append,
    List.map_cons, Nat.ofDigits_cons]
  exact Nat.add_comm _ _

/-- Going from the left, every digit makes the value of those in front of it ten times as much. -/
theorem ofDigitChars_eq_value (digits : List Char) :
    Nat.ofDigitChars 10 digits 0 = value digits := by
  induction digits using List.reverseRecOn with
  | nil => rfl
  | append_singleton digits c ih =>
    rw [value_concat, Nat.ofDigitChars_append, ih]
    rfl

/-- The digits of a number have its value. -/
theorem value_toDigits (k : Nat) : value (Nat.toDigits 10 k) = k := by
  rw [← ofDigitChars_eq_value, Nat.ofDigitChars_toDigits (by decide) (by decide)]

/-- The digits of a number are digits. -/
theorem isDigit_toDigits {k : Nat} {c : Char} (hc : c ∈ Nat.toDigits 10 k) : c.isDigit = true :=
  Nat.isDigit_of_mem_toDigits (by decide) (by decide) hc

/-- Digits are read as an integer when their value is below `2 ^ 63`, and then as that value. -/
theorem readInt64?_eq_some_iff {digits : List Char} (hne : digits ≠ [])
    (hdigits : ∀ c ∈ digits, c.isDigit = true) {n : Int64} :
    readInt64? (String.ofList digits) = some n ↔ n.toInt = value digits := by
  have hread := @readInt64_eq_some_iff (String.ofList digits) n (by simpa using hne)
    (by simpa using hdigits)
  rw [hread, String.toList_ofList, ofDigitChars_eq_value, eq_comm]

/-- The naturals among the numbers in range are those below 2⁶³. -/
theorem exists_toInt_iff {v : Nat} : (∃ n : Int64, n.toInt = v) ↔ v < 2 ^ 63 := by
  constructor
  · rintro ⟨n, hn⟩
    have hle := n.toInt_le
    rw [Int64.toInt_maxValue] at hle
    omega
  · intro hv
    exact ⟨Int64.ofInt v, Int64.toInt_ofInt_of_le (by omega) (by omega)⟩

/-! ## Written integers -/

/-- The sign of an integer, where it is written. -/
def sign (n : Int) : List Char := if n < 0 then ['-'] else []

/-- A number is written as a sign and the digits of its size. -/
theorem toList_ofInt (n : Int) : (ofInt n).toList = sign n ++ Nat.toDigits 10 n.natAbs := by
  cases n with
  | ofNat k => simp [ofInt, sign]
  | negSucc k => simp [ofInt, sign, Int.negSucc_lt_zero]

/-- A written integer reads back. -/
theorem readInt?_ofInt (n : Int) : readInt? (ofInt n).toList = some n := by
  have hdigits : (Nat.toDigits 10 n.natAbs).all Char.isDigit = true :=
    List.all_eq_true.2 fun _ => isDigit_toDigits
  have hvalue : Nat.ofDigitChars 10 (Nat.toDigits 10 n.natAbs) 0 = n.natAbs :=
    Nat.ofDigitChars_toDigits (by decide) (by decide)
  rw [toList_ofInt, sign]
  split
  · rename_i hneg
    rw [List.singleton_append, readInt?, readNat?, if_pos ⟨Nat.toDigits_ne_nil, hdigits⟩, hvalue]
    show some (-(n.natAbs : Int)) = some n
    exact congrArg some (by omega)
  · rename_i hpos
    rw [List.nil_append, readInt_of_digits Nat.toDigits_ne_nil hdigits, hvalue]
    exact congrArg some (by omega)

/-- Different numbers are written differently. -/
theorem ofInt64_injective {m n : Int64} (h : ofInt64 m = ofInt64 n) : m = n := by
  have hread : some m.toInt = some n.toInt := by
    rw [← readInt?_ofInt, ← readInt?_ofInt]
    exact congrArg (fun text => readInt? text.toList) h
  exact Int64.toInt_inj.1 (Option.some.inj hread)

end ExprLang.Decimal
