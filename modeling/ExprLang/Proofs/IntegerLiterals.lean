/-
  INTEGER LITERALS: digits as programs, and integers that are read back from their text.

  Digits are one token, and a minus sign in front of them is another.  So there are no negative
  literals: a negative integer is read as the opposite of a literal, and the literal for the least
  one, 2 ^ 63, is out of range although its opposite is not.

  A parser that has used up the tokens meets no operator behind them, so what a program of one
  operand is read as does not depend on the levels of operators (`run_assignment_alone`).
-/
import ExprLang.Proofs.DecimalNumerals
import ExprLang.Proofs.PrintedOperands
import ExprLang.Proofs.UniqueReading
import ExprLang.Proofs.WrappingArithmetic

namespace ExprLang

variable {digits : List Char}

/-! ## Tokens -/

/-- Digits are a token. -/
theorem tokenizeFrom_digits (h : TokenKind.Spells .integer digits) (here : Position) :
    tokenizeFrom here digits = .ok [⟨.integer, String.ofList digits, .known here⟩] := by
  have hscan : scan digits = .token .integer digits [] := by
    have hwhole : scan (digits ++ []) = .token .integer digits [] :=
      scan_of_spells h (by simp [TokenKind.Ends])
    rwa [List.append_nil] at hwhole
  rw [tokenizeFrom_of_token hscan, tokenizeFrom]
  rfl

/-- Digits alone are one token, at the beginning of the text. -/
theorem tokenize_digits (h : TokenKind.Spells .integer digits) :
    tokenize (String.ofList digits) = .ok [⟨.integer, String.ofList digits, .of 1 1⟩] := by
  rw [tokenize, String.toList_ofList]
  exact tokenizeFrom_digits h .start

/-- A minus sign in front of them is a token of its own. -/
theorem tokenize_minus_digits (h : TokenKind.Spells .integer digits) :
    tokenize (String.ofList ('-' :: digits)) =
      .ok [⟨.operator, "-", .of 1 1⟩, ⟨.integer, String.ofList digits, .of 1 2⟩] := by
  have hscan : scan ('-' :: digits) = .token .operator ['-'] digits :=
    scan_of_spells (show TokenKind.Spells .operator ['-'] from
      show String.ofList ['-'] ∈ operatorSigns by decide) (by simp [TokenKind.Ends])
  rw [tokenize, String.toList_ofList, tokenizeFrom_of_token hscan, tokenizeFrom_digits h]
  rfl

/-- A token of digits is spelled like no word of the grammar. -/
theorem is_of_digits {t : Token} (ht : TokenKind.Spells .integer t.text.toList) {own : String}
    (hown : own.toList.all Char.isDigit = false) : t.is own = false := by
  have hne : t.text ≠ own := by
    rintro rfl
    rw [List.all_eq_true.2 ht.2] at hown
    contradiction
  simp [Token.is, hne]

/-- An integer token is none of the words that the grammar looks for. -/
theorem isAny_of_digits {t : Token} (ht : TokenKind.Spells .integer t.text.toList)
    {words : List String} (hwords : ∀ own ∈ words, own.toList.all Char.isDigit = false) :
    t.isAny words = false := by
  rw [Token.isAny, List.any_eq_false]
  exact fun own hmem => by rw [is_of_digits ht (hwords own hmem)]; exact Bool.false_ne_true

namespace Grammar

open ExprLang.Parser

variable {inner : Nested} {last : Location} {ts rest : List Token} {t : Token}

/-! ## One operand alone -/

/-- What is read to the end of the tokens meets no operator behind it. -/
theorem run_joined_alone {result : Except ParseError Expr}
    (h : (unary inner).run last ts = result.map fun e => (e, [])) (levels : List (List String)) :
    (joined inner levels).run last ts = result.map fun e => (e, []) := by
  induction levels with
  | nil => exact h
  | cons operators tighter ih =>
    rw [joined_cons, run_bind, ih]
    cases result with
    | error e => rfl
    | ok e => exact run_joining e (isAny_endAt last _)

/-- Nor is it assigned to. -/
theorem run_assignment_alone {result : Except ParseError Expr}
    (h : (unary inner).run last ts = result.map fun e => (e, [])) :
    (assignment inner).run last ts = result.map fun e => (e, []) := by
  have hbinary : (binary inner).run last ts = result.map fun e => (e, []) :=
    run_joined_alone h binaryLevels
  rw [assignment, run_bind, hbinary]
  cases result <;> rfl

/-- A program of one operand. -/
theorem parse_alone {result : Except ParseError Expr} (hvar : t.is "var" = false)
    (h : (unary (nested (maxDepth - 1))).run (endLocation (t :: ts)) (t :: ts)
      = result.map fun e => (e, [])) :
    parse (t :: ts) = result.map some := by
  have hrun : (nested maxDepth).expression.run (endLocation (t :: ts)) (t :: ts)
      = result.map fun e => (e, []) := run_assignment_alone h
  rw [parse, hvar, if_neg Bool.false_ne_true, hrun]
  cases result <;> rfl

/-! ## Literals -/

/-- The tree of an integer literal, if the integer is in range. -/
def literal (t : Token) : Except ParseError Expr :=
  match Decimal.readInt64? t.text with
  | some n => .ok (.int t.location n)
  | none => .error (.integerOutOfRange t.text t.location)

/-- A literal is read as it is, whatever stands behind it. -/
theorem run_integer (hkind : t.kind = .integer) :
    integer.run last (t :: rest) = (literal t).map fun e => (e, rest) := by
  rw [integer, run_take_bind (by simp [hkind]), literal]
  cases Decimal.readInt64? t.text <;> rfl

/-- In front of an integer token no operator is read, and the literal alone is taken. -/
theorem run_unary_literal (hkind : t.kind = .integer)
    (ht : TokenKind.Spells .integer t.text.toList) :
    (unary inner).run last (t :: rest) = (literal t).map fun e => (e, rest) := by
  rw [run_unary_atom (isAny_of_digits ht (by decide)), run_atom hkind, run_integer hkind]

/-- A program of one integer token is that literal. -/
theorem parse_literal (hkind : t.kind = .integer) (ht : TokenKind.Spells .integer t.text.toList) :
    parse [t] = (literal t).map some :=
  parse_alone (is_of_digits ht (by decide)) (run_unary_literal hkind ht)

/-- The literal behind a minus sign is its operand. -/
theorem parse_minus_literal (loc : Location) (hkind : t.kind = .integer)
    (ht : TokenKind.Spells .integer t.text.toList) :
    parse [⟨.operator, "-", loc⟩, t] = (literal t).map fun e => some (.unary loc "-" e) := by
  have hunary : (unary (nested (maxDepth - 1))).run (endLocation [⟨.operator, "-", loc⟩, t])
      [⟨.operator, "-", loc⟩, t] = ((literal t).map (.unary loc "-")).map fun e => (e, []) := by
    have hoperand : (unary (nested (maxDepth - 2))).run (endLocation [⟨.operator, "-", loc⟩, t]) [t]
        = (literal t).map fun e => (e, []) := run_unary_literal hkind ht
    rw [unary, run_look_cons (if_pos rfl), run_take_bind rfl, run_map]
    change (Except.map _ ((unary (nested (maxDepth - 2))).run _ [t])) = _
    rw [hoperand]
    cases literal t <;> rfl
  rw [parse_alone rfl hunary]
  cases literal t <;> rfl

/-- A literal has the value of its digits, and is out of range when there is no such integer. -/
theorem literal_eq_ok_iff (hne : digits ≠ []) (hdigits : ∀ c ∈ digits, c.isDigit = true)
    {kind : TokenKind} {loc : Location} {e : Expr} :
    literal ⟨kind, String.ofList digits, loc⟩ = .ok e ↔
      ∃ n : Int64, n.toInt = Decimal.value digits ∧ e = .int loc n := by
  simp only [← Decimal.readInt64?_eq_some_iff hne hdigits, literal]
  cases Decimal.readInt64? (String.ofList digits) <;> simp [eq_comm]

/-- Digits whose value is too large are refused as a literal, whatever their number. -/
theorem literal_outOfRange (hne : digits ≠ []) (hdigits : ∀ c ∈ digits, c.isDigit = true)
    (hvalue : 2 ^ 63 ≤ Decimal.value digits) (kind : TokenKind) (loc : Location) :
    literal ⟨kind, String.ofList digits, loc⟩
      = .error (.integerOutOfRange (String.ofList digits) loc) := by
  rcases hread : Decimal.readInt64? (String.ofList digits) with _ | n
  · simp [literal, hread]
  · have hn := (Decimal.readInt64?_eq_some_iff hne hdigits).1 hread
    exact absurd (Decimal.exists_toInt_iff.1 ⟨n, hn⟩) (Nat.not_lt.2 hvalue)

end Grammar

/-! ## Source texts -/

/-- What is read of a source text that is tokens. -/
theorem readProgram_of_tokens {source : String} {tokens : List Token}
    {result : Except ParseError (Option Expr)} (htokens : tokenize source = .ok tokens)
    (hparse : Grammar.parse tokens = result) : readProgram source = result.mapError .parse := by
  rw [readProgram, htokens]
  simp only [hparse]
  cases result <;> rfl

/-- A text of digits is read as its literal. -/
theorem readProgram_digits (h : TokenKind.Spells .integer digits) :
    readProgram (String.ofList digits) =
      ((Grammar.literal ⟨.integer, String.ofList digits, .of 1 1⟩).map some).mapError .parse :=
  readProgram_of_tokens (tokenize_digits h) (Grammar.parse_literal rfl (by simpa using h))

/-- A minus in front of digits is an operator: the digits are read as a literal still. -/
theorem readProgram_minus_digits (h : TokenKind.Spells .integer digits) :
    readProgram (String.ofList ('-' :: digits)) =
      ((Grammar.literal ⟨.integer, String.ofList digits, .of 1 2⟩).map
        fun e => some (.unary (.of 1 1) "-" e)).mapError .parse :=
  readProgram_of_tokens (tokenize_minus_digits h)
    (Grammar.parse_minus_literal _ rfl (by simpa using h))

/-- A program that type checks and gives a value without writing anything runs to it. -/
theorem run_of_gives {source : String} {tree : Expr} {ty : Ty} {v : Value}
    (hread : readProgram source = .ok (some tree)) (htype : Typing.typeOf tree = .ok ty)
    (hgives : Eval.Gives tree v) (out : Output) : run source out = (.ok v, out) := by
  rw [run, checkProgram, hread]
  simp only [htype, Eval.interpret, hgives out]

/-- What cannot be read is not run, and nothing is printed. -/
theorem run_of_readProgram_error {source : String} {e : ProgramError}
    (hread : readProgram source = .error e) (out : Output) : run source out = (.error e, out) := by
  rw [run, checkProgram, hread]

/-! ## Printed integers -/

/-- An integer literal has the type of integers. -/
theorem typeOf_int (loc : Location) (n : Int64) : Typing.typeOf (.int loc n) = .ok .int := rfl

/-- So has one with a minus in front. -/
theorem typeOf_minus_int (loc loc' : Location) (n : Int64) :
    Typing.typeOf (.unary loc "-" (.int loc' n)) = .ok .int := by
  with_unfolding_all rfl

/-- A minus in front of a literal gives the negated value. -/
theorem Eval.gives_minus_int (loc loc' : Location) (n : Int64) :
    Gives (.unary loc "-" (.int loc' n)) (.int (-n)) := fun _ => by
  with_unfolding_all rfl

/-- The digits of an integer are an integer token. -/
theorem spells_toDigits (k : Nat) : TokenKind.Spells .integer (Nat.toDigits 10 k) :=
  ⟨Nat.toDigits_ne_nil, fun _ => Decimal.isDigit_toDigits⟩

/-- The digits of a number in range are the literal of that number. -/
theorem literal_toDigits {n : Int64} {k : Nat} (hn : n.toInt = k) {kind : TokenKind}
    {loc : Location} :
    Grammar.literal ⟨kind, String.ofList (Nat.toDigits 10 k), loc⟩ = .ok (.int loc n) := by
  rw [Grammar.literal_eq_ok_iff (spells_toDigits k).1 (spells_toDigits k).2,
    Decimal.value_toDigits]
  exact ⟨n, hn, rfl⟩

/-- A printed number is a sign and its digits. -/
theorem text_int (n : Int64) : (Value.int n).text =
    String.ofList (Decimal.sign n.toInt ++ Nat.toDigits 10 n.toInt.natAbs) := by
  rw [← Decimal.toList_ofInt, String.ofList_toList]
  rfl

/-- An integer that is not negative is a literal. -/
theorem run_text_of_nonneg {n : Int64} (hn : 0 ≤ n.toInt) (out : Output) :
    run (Value.int n).text out = (.ok (.int n), out) := by
  rw [text_int, Decimal.sign, if_neg (Int.not_lt.2 hn), List.nil_append]
  refine run_of_gives ?_ (typeOf_int (.of 1 1) n) (Eval.gives_int (.of 1 1) n) out
  rw [readProgram_digits (spells_toDigits _), literal_toDigits (Int.natAbs_of_nonneg hn).symm]
  rfl

/-- A negative one is the opposite of a literal, as long as that is in range. -/
theorem run_text_of_neg {n : Int64} (hn : n.toInt < 0) (hleast : n ≠ Int64.minValue)
    (out : Output) : run (Value.int n).text out = (.ok (.int n), out) := by
  have hrange : n.toInt.natAbs < 2 ^ 63 := by
    have hle := n.minValue_le_toInt
    have hne : n.toInt ≠ Int64.minValue.toInt := fun h => hleast (Int64.toInt_inj.1 h)
    rw [Int64.toInt_minValue] at hle hne
    omega
  obtain ⟨m, hm⟩ := Decimal.exists_toInt_iff.2 hrange
  -- the literal is in range, because only the least integer has an opposite that is not
  have hopposite : -m = n := by
    have habs : -m.toInt = n.toInt := by omega
    rw [← Int64.ofInt_toInt m, ← Int64.ofInt_neg, habs, Int64.ofInt_toInt]
  rw [text_int, Decimal.sign, if_pos hn, List.singleton_append]
  refine run_of_gives ?_ (typeOf_minus_int (.of 1 1) (.of 1 2) m)
    (hopposite ▸ Eval.gives_minus_int (.of 1 1) (.of 1 2) m) out
  rw [readProgram_minus_digits (spells_toDigits _), literal_toDigits hm]
  rfl

/-- The opposite of the least integer is not in range, so its digits are refused. -/
theorem run_text_minValue (out : Output) : run (Value.int Int64.minValue).text out =
    (.error (.parse (.integerOutOfRange "9223372036854775808" (.of 1 2))), out) := by
  have hvalue : 2 ^ 63 ≤ Decimal.value (Nat.toDigits 10 Int64.minValue.toInt.natAbs) := by
    rw [Decimal.value_toDigits]
    decide
  have hdigits : String.ofList (Nat.toDigits 10 Int64.minValue.toInt.natAbs)
      = "9223372036854775808" := by decide
  rw [text_int, Decimal.sign, if_pos (by decide), List.singleton_append]
  refine run_of_readProgram_error ?_ out
  rw [readProgram_minus_digits (spells_toDigits _),
    Grammar.literal_outOfRange (spells_toDigits _).1 (spells_toDigits _).2 hvalue, hdigits]
  rfl

/-! ## Digits as programs -/

/-- Digits are a program when their value is below `2 ^ 63`, and then the literal of that value. -/
theorem readProgram_digits_eq_ok_iff (h : TokenKind.Spells .integer digits) {tree : Expr} :
    readProgram (String.ofList digits) = .ok (some tree) ↔
      ∃ n : Int64, n.toInt = Decimal.value digits ∧ tree = .int (.of 1 1) n := by
  rw [readProgram_digits h, ← @Grammar.literal_eq_ok_iff digits h.1 h.2 .integer]
  cases Grammar.literal ⟨.integer, String.ofList digits, .of 1 1⟩ <;>
    simp [Except.map, Except.mapError]

/-- Digits are read as a program if and only if their value is in range. -/
theorem exists_readProgram_digits_iff (h : TokenKind.Spells .integer digits) :
    (∃ tree, readProgram (String.ofList digits) = .ok (some tree)) ↔
      Decimal.value digits < 2 ^ 63 := by
  rw [← Decimal.exists_toInt_iff]
  constructor
  · rintro ⟨tree, htree⟩
    obtain ⟨n, hn, -⟩ := (readProgram_digits_eq_ok_iff h).1 htree
    exact ⟨n, hn⟩
  · rintro ⟨n, hn⟩
    exact ⟨_, (readProgram_digits_eq_ok_iff h).2 ⟨n, hn, rfl⟩⟩

/-- Other digits are refused where they stand, with their own text. -/
theorem readProgram_digits_outOfRange (h : TokenKind.Spells .integer digits)
    (hvalue : 2 ^ 63 ≤ Decimal.value digits) : readProgram (String.ofList digits)
      = .error (.parse (.integerOutOfRange (String.ofList digits) (.of 1 1))) := by
  rw [readProgram_digits h, Grammar.literal_outOfRange h.1 h.2 hvalue]
  rfl

/-- In the middle of other tokens digits are read in the same way. -/
theorem run_atom_digits (h : TokenKind.Spells .integer digits) (inner : Grammar.Nested)
    (last loc : Location) (rest : List Token) :
    (∀ n : Int64, (Grammar.atom inner).run last (⟨.integer, String.ofList digits, loc⟩ :: rest)
        = .ok (.int loc n, rest) ↔ n.toInt = Decimal.value digits) ∧
      (2 ^ 63 ≤ Decimal.value digits →
        (Grammar.atom inner).run last (⟨.integer, String.ofList digits, loc⟩ :: rest)
          = .error (.integerOutOfRange (String.ofList digits) loc)) := by
  rw [Grammar.run_atom rfl, Grammar.run_integer rfl]
  constructor
  · intro n
    have hiff := @Grammar.literal_eq_ok_iff digits h.1 h.2 .integer loc (.int loc n)
    simp only [Expr.int.injEq, true_and, exists_eq_right'] at hiff
    rw [← hiff]
    cases Grammar.literal ⟨.integer, String.ofList digits, loc⟩ <;> simp [Except.map]
  · intro hvalue
    rw [Grammar.literal_outOfRange h.1 h.2 hvalue]
    rfl

/-- Printed integers read back.  The text of an integer is a program that runs to it, except for
    the least one, whose digits are out of range.  Digits are read as an integer literal when their
    value is below `2 ^ 63`, and then as that value, as a whole program or in the middle of one. -/
theorem printed_integers_read_back :
    (∀ n : Int64, n ≠ Int64.minValue → ∀ out, run (Value.int n).text out = (.ok (.int n), out)) ∧
    (∀ out, run (Value.int Int64.minValue).text out =
      (.error (.parse (.integerOutOfRange "9223372036854775808" (.of 1 2))), out)) ∧
    ∀ digits : List Char, digits ≠ [] → (∀ c ∈ digits, c.isDigit = true) →
      ((∃ tree, readProgram (String.ofList digits) = .ok (some tree)) ↔
        Decimal.value digits < 2 ^ 63) ∧
      (∀ tree, readProgram (String.ofList digits) = .ok (some tree) ↔
        ∃ n : Int64, n.toInt = Decimal.value digits ∧ tree = .int (.of 1 1) n) ∧
      (2 ^ 63 ≤ Decimal.value digits → readProgram (String.ofList digits)
        = .error (.parse (.integerOutOfRange (String.ofList digits) (.of 1 1)))) ∧
      ∀ (inner : Grammar.Nested) (last loc : Location) (rest : List Token),
        (∀ n : Int64, (Grammar.atom inner).run last (⟨.integer, String.ofList digits, loc⟩ :: rest)
          = .ok (.int loc n, rest) ↔ n.toInt = Decimal.value digits) ∧
        (2 ^ 63 ≤ Decimal.value digits →
          (Grammar.atom inner).run last (⟨.integer, String.ofList digits, loc⟩ :: rest)
            = .error (.integerOutOfRange (String.ofList digits) loc)) := by
  refine ⟨fun n hleast out => ?_, run_text_minValue, fun digits hne hdigits => ?_⟩
  · rcases Int.lt_or_le n.toInt 0 with hneg | hpos
    · exact run_text_of_neg hneg hleast out
    · exact run_text_of_nonneg hpos out
  · have h : TokenKind.Spells .integer digits := ⟨hne, hdigits⟩
    exact ⟨exists_readProgram_digits_iff h, fun _ => readProgram_digits_eq_ok_iff h,
      readProgram_digits_outOfRange h, run_atom_digits h⟩

/-- The integer above the least one, and digits behind zeros. -/
theorem printed_integers_read_back_above_least :
    (∀ out, run "-9223372036854775807" out = (.ok (.int (-9223372036854775807)), out)) ∧
      readProgram "00042" = .ok (some (.int (.of 1 1) 42)) :=
  ⟨printed_integers_read_back.1 (-9223372036854775807) (by decide),
    ((printed_integers_read_back.2.2 "00042".toList (by decide) (by simp)).2.1 _).2
      ⟨42, rfl, rfl⟩⟩

end ExprLang
