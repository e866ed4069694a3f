/-
  WRAPPING ARITHMETIC: the operators on 64-bit integers against the exact integers.

  A sum, a difference, a product or an opposite is the signed representative of the exact one
  modulo 2 ^ 64 (`Builtin.Wraps`).  A quotient is exact, except that the least integer divided by
  -1 is itself; a remainder always is (`Divides`).

  The crux is that quotient and remainder recombine even there.  Passing to 64 bits commutes with
  sums and products, and with quotients and remainders of 64-bit integers, so the identity is that
  of the exact integers seen through `Int64.ofInt` (`div_mul_add_mod`).  A program computes
  it with the operators that the root scope binds (`Eval.Gives`).
-/
import ExprLang.Proofs.TypeSoundness

namespace ExprLang

/-! ## Integers -/

/-- Truncated division of 64-bit integers: a quotient and a remainder. -/
structure Divides (a b q r : Int64) : Prop where
  quotient : if a = Int64.minValue ∧ b = -1 then q = a else q.toInt = a.toInt.tdiv b.toInt
  smaller : r.toInt.natAbs < b.toInt.natAbs
  sign : r = 0 ∨ r.toInt.sign = a.toInt.sign

/-- A divisor is zero as a word only if it is zero as an integer. -/
theorem toInt_ne_zero {n : Int64} (h : n ≠ 0) : n.toInt ≠ 0 := fun hzero =>
  h (Int64.toInt_inj.1 (hzero.trans Int64.toInt_zero.symm))

/-- Words are divided as integers are, but for the one quotient that does not fit. -/
theorem divides_div_mod {a b : Int64} (hb : b ≠ 0) : Divides a b (a / b) (a % b) where
  quotient := by
    split
    · rename_i hleast
      obtain ⟨rfl, rfl⟩ := hleast
      decide
    · rename_i hother
      rcases not_and_or.1 hother with ha | hb
      · exact Int64.toInt_div_of_ne_left a b ha
      · exact Int64.toInt_div_of_ne_right a b hb
  smaller := by
    rw [Int64.toInt_mod, Int.natAbs_tmod]
    exact Nat.mod_lt _ (Int.natAbs_pos.2 (toInt_ne_zero hb))
  sign := by
    rw [Int64.toInt_mod, Int.sign_tmod]
    split
    · rename_i hdvd
      exact .inl (Int64.toInt_inj.1 (by
        rw [Int64.toInt_mod, Int64.toInt_zero]
        exact Int.tmod_eq_zero_of_dvd hdvd))
    · exact .inr rfl

/-- Quotient and remainder make up the dividend. -/
theorem div_mul_add_mod (a b : Int64) : a / b * b + a % b = a := by
  have hdiv : Int64.ofInt (a.toInt.tdiv b.toInt) = a / b := by
    rw [Int64.ofInt_tdiv (Int64.minValue_le_toInt a) (Int64.toInt_le a) (Int64.minValue_le_toInt b)
      (Int64.toInt_le b), Int64.ofInt_toInt, Int64.ofInt_toInt]
  have hmod : Int64.ofInt (a.toInt.tmod b.toInt) = a % b := by
    rw [← Int64.toInt_mod, Int64.ofInt_toInt]
  calc a / b * b + a % b
      = Int64.ofInt (a.toInt.tdiv b.toInt * b.toInt + a.toInt.tmod b.toInt) := by
        rw [Int64.ofInt_add, Int64.ofInt_mul, hdiv, hmod, Int64.ofInt_toInt]
    _ = a := by rw [Int.tdiv_mul_add_tmod, Int64.ofInt_toInt]

/-! ## Builtins -/

namespace Builtin

/-- A builtin has the signed representative of an exact integer modulo 2 ^ 64, and writes
    nothing. -/
def Wraps (b : Builtin) (args : List Int64) (exact : Int) : Prop :=
  ∃ c : Int64, c.toInt = exact.bmod (2 ^ 64) ∧
    ∀ out, b.apply (args.map .int) out = .ok (.int c, out)

/-- A builtin says whether something holds, and writes nothing. -/
def Answers (b : Builtin) (args : List Int64) (holds : Prop) [Decidable holds] : Prop :=
  ∀ out, b.apply (args.map .int) out = .ok (.bool holds, out)

/-- The sum is taken modulo 2 to the 64. -/
theorem wraps_add (a b : Int64) : add.Wraps [a, b] (a.toInt + b.toInt) :=
  ⟨a + b, Int64.toInt_add a b, fun _ => rfl⟩

/-- So is the difference. -/
theorem wraps_subtract (a b : Int64) : subtract.Wraps [a, b] (a.toInt - b.toInt) :=
  ⟨a - b, Int64.toInt_sub a b, fun _ => rfl⟩

/-- So is the product. -/
theorem wraps_multiply (a b : Int64) : multiply.Wraps [a, b] (a.toInt * b.toInt) :=
  ⟨a * b, Int64.toInt_mul a b, fun _ => rfl⟩

/-- So is the negative, which matters for the least integer only. -/
theorem wraps_negate (a : Int64) : negate.Wraps [a] (-a.toInt) :=
  ⟨-a, Int64.toInt_neg a, fun _ => rfl⟩

/-- Division answers unless its divisor is zero. -/
theorem apply_divide {a b : Int64} (hb : b ≠ 0) (out : Output) :
    divide.apply [.int a, .int b] out = .ok (.int (a / b), out) := by
  simp only [apply, lineOf?, compute, if_neg hb]
  rfl

/-- So does the remainder. -/
theorem apply_remainder {a b : Int64} (hb : b ≠ 0) (out : Output) :
    remainder.apply [.int a, .int b] out = .ok (.int (a % b), out) := by
  simp only [apply, lineOf?, compute, if_neg hb]
  rfl

/-- Equality answers for all values, and is reflexive. -/
theorem apply_equal_self (v : Value) (out : Output) :
    equal.apply [v, v] out = .ok (.bool true, out) := by
  simp only [apply, lineOf?, compute, if_true, decide_true]
  rfl

/-- Comparisons are those of the integers, not of the words. -/
theorem answers_less (a b : Int64) :
    less.Answers [a, b] (a.toInt < b.toInt) := fun _ => by
  simp only [apply, lineOf?, compute, List.map_cons, List.map_nil, Int64.lt_iff_toInt_lt]
  rfl

theorem answers_lessEqual (a b : Int64) :
    lessEqual.Answers [a, b] (a.toInt ≤ b.toInt) := fun _ => by
  simp only [apply, lineOf?, compute, List.map_cons, List.map_nil, Int64.le_iff_toInt_le]
  rfl

end Builtin

/-! ## Operators of a program -/

/-- What an expression evaluates to where programs start, without writing anything. -/
def Eval.Gives (e : Expr) (v : Value) : Prop :=
  ∀ out, eval e ⟨rootScopes, out⟩ = .ok v ⟨rootScopes, out⟩

namespace Eval

variable {left right : Expr} {v w x : Value} {loc : Location}

/-- A literal is worth its integer and prints nothing. -/
theorem gives_int (loc : Location) (n : Int64) : Gives (.int loc n) (.int n) := fun _ => by
  rw [eval]
  rfl

/-- An operator that is a builtin is applied to the values of its operands. -/
theorem gives_operation {b : Builtin} (hop : b.name ∉ ["=", "and", "or"]) (hleft : Gives left v)
    (hright : Gives right w) (happly : ∀ out, b.apply [v, w] out = .ok (x, out)) :
    Gives (.binary loc b.name left right) x := fun out => by
  simp only [List.mem_cons, List.not_mem_nil, or_false, not_or] at hop
  have hname : lookup b.name loc ⟨rootScopes, out⟩ = .ok (.builtin b) ⟨rootScopes, out⟩ := by
    simp only [lookup, lookup_rootScopes.2 ⟨b, rfl, rfl⟩]
  have hoperator : operator b.name loc ⟨rootScopes, out⟩ = .ok b ⟨rootScopes, out⟩ :=
    bind_of_ok hname
  rw [eval_operation hop.1 (not_or.2 hop.2), bind_of_ok hoperator, bind_of_ok (hleft out),
    bind_of_ok (hright out), apply]
  simp only [happly]

/-- The tree of `a == a / b * b + a % b`. -/
def recombined (loc : Location) (a b : Int64) : Expr :=
  .binary loc "==" (.int loc a)
    (.binary loc "+"
      (.binary loc "*" (.binary loc "/" (.int loc a) (.int loc b)) (.int loc b))
      (.binary loc "%" (.int loc a) (.int loc b)))

/-- Quotient times divisor plus remainder gives back the dividend also when the quotient wraps
    around. -/
theorem gives_recombined (loc : Location) (a : Int64) {b : Int64} (hb : b ≠ 0) :
    Gives (recombined loc a b) (.bool true) := by
  have hquotient : Gives (.binary loc "/" (.int loc a) (.int loc b)) (.int (a / b)) :=
    gives_operation (b := .divide) (by decide) (gives_int loc a) (gives_int loc b)
      (Builtin.apply_divide hb)
  have hremainder : Gives (.binary loc "%" (.int loc a) (.int loc b)) (.int (a % b)) :=
    gives_operation (b := .remainder) (by decide) (gives_int loc a) (gives_int loc b)
      (Builtin.apply_remainder hb)
  have hproduct : Gives (.binary loc "*" _ _) (.int (a / b * b)) :=
    gives_operation (b := .multiply) (by decide) hquotient (gives_int loc b) fun _ => rfl
  have hsum : Gives (.binary loc "+" _ _) (.int (a / b * b + a % b)) :=
    gives_operation (b := .add) (by decide) hproduct hremainder fun _ => rfl
  refine gives_operation (b := .equal) (by decide) (gives_int loc a) hsum fun out => ?_
  rw [div_mul_add_mod, Builtin.apply_equal_self]

end Eval

/-- Arithmetic is exact modulo 2 ^ 64.  Sums, differences, products and opposites are the signed
    representatives of the exact ones.  By a number other than zero, division gives the quotient
    truncated toward zero, but for the one that does not fit, and a remainder that is smaller than
    the divisor and has the sign of the dividend; the language's own operators make the dividend of
    them again.  Comparisons are those of the exact integers. -/
theorem arithmetic_modulo (a b : Int64) :
    Builtin.add.Wraps [a, b] (a.toInt + b.toInt) ∧
    Builtin.subtract.Wraps [a, b] (a.toInt - b.toInt) ∧
    Builtin.multiply.Wraps [a, b] (a.toInt * b.toInt) ∧
    Builtin.negate.Wraps [a] (-a.toInt) ∧
    (b ≠ 0 → ∃ q r, Divides a b q r ∧
      (∀ out, Builtin.divide.apply [.int a, .int b] out = .ok (.int q, out)) ∧
      (∀ out, Builtin.remainder.apply [.int a, .int b] out = .ok (.int r, out)) ∧
      ∀ loc out, Eval.interpret (Eval.recombined loc a b) out = (.ok (.bool true), out)) ∧
    Builtin.less.Answers [a, b] (a.toInt < b.toInt) ∧
    Builtin.greater.Answers [a, b] (a.toInt > b.toInt) ∧
    Builtin.lessEqual.Answers [a, b] (a.toInt ≤ b.toInt) ∧
    Builtin.greaterEqual.Answers [a, b] (a.toInt ≥ b.toInt) := by
  refine ⟨Builtin.wraps_add a b, Builtin.wraps_subtract a b, Builtin.wraps_multiply a b,
    Builtin.wraps_negate a, fun hb => ⟨a / b, a % b, divides_div_mod hb, Builtin.apply_divide hb,
      Builtin.apply_remainder hb, fun loc out => ?_⟩, Builtin.answers_less a b,
    -- the other two comparisons look at their operands the other way round
    Builtin.answers_less b a, Builtin.answers_lessEqual a b, Builtin.answers_lessEqual b a⟩
  rw [Eval.interpret, Eval.gives_recombined loc a hb out]

/-- The least integer divided by -1 is itself, and times -1 it is itself again. -/
theorem arithmetic_modulo_least : (-1 : Int64) ≠ 0 ∧
    (∀ out, Builtin.divide.apply [.int Int64.minValue, .int (-1)] out
      = .ok (.int Int64.minValue, out)) ∧
    ∀ loc out, Eval.interpret (Eval.recombined loc Int64.minValue (-1)) out
      = (.ok (.bool true), out) := by
  have hdivisor : (-1 : Int64) ≠ 0 := by decide
  obtain ⟨-, -, -, -, hdivide, -⟩ := arithmetic_modulo Int64.minValue (-1)
  obtain ⟨q, r, hdivides, hquotient, -, hrecombined⟩ := hdivide hdivisor
  have hq : q = Int64.minValue := by simpa using hdivides.quotient
  subst hq
  exact ⟨hdivisor, hquotient, hrecombined⟩

end ExprLang
