/-
  SIGNATURES: what a builtin makes of operands of any number and kind.

  The checker reads `Builtin.signature?` and the evaluator runs `Builtin.apply`.  The two are tables
  of their own; `Builtin.Takes` joins them.  It says which operands a signature asks for, by their
  kinds, and of which type the result is; `==` and `!=` have no signature and take two values of
  one kind.

  The crux is the last branch of `Builtin.compute`, which refuses whatever the others leave over.
  Operands that a builtin takes never get there: once their kinds are known, so are their shapes
  (`Builtin.forall₂_ofType`), and the soundness of a builtin at operands of its signature says
  the rest.  Conversely every other branch is for operands that the builtin takes
  (`Builtin.compute_of_not_takes`).
-/
import ExprLang.Proofs.TypeSoundness

namespace ExprLang

/-- The kind of the values of a type. -/
def Ty.kind : Ty → Kind
  | .int => .int
  | .bool => .bool
  | .unit => .unit
  | .func .. => .function

namespace Builtin

/-- A builtin is for these operands and has a result of this type: the kinds are those of its
    parameters, or it compares two values of one kind. -/
inductive Takes (b : Builtin) : List Value → Ty → Prop
  | signed {args params result} (hsignature : b.signature? = some (.func params result))
      (hkinds : args.map Value.kind = params.map Ty.kind) : Takes b args result
  | compared {v w} (hunsigned : b.signature? = none) (hkind : v.kind = w.kind) :
      Takes b [v, w] .bool

/-- A division whose second operand is zero. -/
def DividesByZero (b : Builtin) (args : List Value) : Prop :=
  (b = .divide ∨ b = .remainder) ∧ ∃ m, args = [.int m, .int 0]

/-- The builtins that write. -/
def IsPrint (b : Builtin) : Prop := b = .printInt ∨ b = .printBool

variable {b : Builtin} {args : List Value} {result : Ty}

theorem signature?_eq_none_iff : b.signature? = none ↔ b = .equal ∨ b = .notEqual := by
  cases b <;> simp [signature?]

/-- A signature is a function type. -/
theorem exists_of_signature {ty : Ty} (h : b.signature? = some ty) :
    ∃ params result, ty = .func params result := by
  cases b with
  | equal | notEqual => contradiction
  | _ => exact ⟨_, _, (Option.some.inj h).symm⟩

/-! ## Operands of a signature -/

/-- Parameters are integers and Booleans. -/
theorem param_int_or_bool {params : List Ty} (h : b.signature? = some (.func params result)) :
    ∀ ty ∈ params, ty = .int ∨ ty = .bool := by
  cases b with
  | equal | notEqual => contradiction
  | _ =>
    obtain ⟨rfl, -⟩ := Ty.func.inj (Option.some.inj h)
    decide

theorem ofType_of_kind {v : Value} {ty : Ty} (hty : ty = .int ∨ ty = .bool)
    (h : v.kind = ty.kind) : v.OfType ty := by
  rcases hty with rfl | rfl <;> cases v <;> first | rfl | contradiction

/-- Operands of the kinds of a signature are of its types. -/
theorem forall₂_ofType {params : List Ty} (hparams : ∀ ty ∈ params, ty = .int ∨ ty = .bool)
    (hkinds : args.map Value.kind = params.map Ty.kind) :
    List.Forall₂ Value.OfType args params := by
  induction params generalizing args with
  | nil =>
    obtain rfl := List.map_eq_nil_iff.1 hkinds
    exact .nil
  | cons ty params ih =>
    obtain ⟨v, vs, rfl, hv, hvs⟩ := List.map_eq_cons_iff.1 hkinds
    obtain ⟨hty, hrest⟩ := List.forall_mem_cons.1 hparams
    exact .cons (ofType_of_kind hty hv) (ih hrest hvs)

/-- What a builtin computes from operands that it takes is of its result type, unless it divides
    by zero. -/
theorem compute_of_takes (h : b.Takes args result) (hsilent : b.lineOf? args = none) :
    match b.compute args with
    | .ok v => v.OfType result
    | .error cause => cause = .divisionByZero := by
  cases h with
  | signed hsignature hkinds =>
    exact compute_ofType hsignature (forall₂_ofType (param_int_or_bool hsignature) hkinds) hsilent
  | compared hunsigned hkind =>
    rcases signature?_eq_none_iff.1 hunsigned with rfl | rfl
    · simp only [compute, if_pos hkind]
      rfl
    · simp only [compute, if_pos hkind]
      rfl

/-! ## Other operands -/

/-- A line is printed for operands that a printing builtin takes. -/
theorem takes_of_lineOf? {line : String} (h : b.lineOf? args = some line) :
    b.IsPrint ∧ b.Takes args .unit ∧ ∃ v, args = [v] ∧ line = v.text := by
  unfold lineOf? at h
  split at h
  · exact ⟨.inl rfl, .signed rfl rfl, _, rfl, (Option.some.inj h).symm⟩
  · exact ⟨.inr rfl, .signed rfl rfl, _, rfl, (Option.some.inj h).symm⟩
  · contradiction

/-- Every branch that computes a value is for operands that the builtin takes. -/
theorem compute_of_not_takes (h : ∀ result, ¬b.Takes args result) :
    b.compute args = .error (.badOperands b (args.map Value.kind)) := by
  fun_cases compute b args with
  | case12 v w hkind | case14 v w hkind => exact absurd (.compared rfl hkind) (h _)
  | case13 | case15 | case20 => rfl
  | _ => exact absurd (.signed rfl rfl) (h _)

theorem compute_eq_divisionByZero_iff :
    b.compute args = .error .divisionByZero ↔ b.DividesByZero args := by
  constructor
  · fun_cases compute b args with
    | case4 m => exact fun _ => ⟨.inl rfl, m, rfl⟩
    | case6 m => exact fun _ => ⟨.inr rfl, m, rfl⟩
    | _ => simp
  · rintro ⟨rfl | rfl, m, rfl⟩ <;> rfl

/-- A printing builtin prints the operand that it takes. -/
theorem lineOf?_ne_none (hprint : b.IsPrint) (h : b.Takes args result) : b.lineOf? args ≠ none := by
  cases h with
  | compared hunsigned => rcases hprint with rfl | rfl <;> contradiction
  | signed hsignature hkinds =>
    have hargs := forall₂_ofType (param_int_or_bool hsignature) hkinds
    rcases hprint with rfl | rfl <;> obtain ⟨rfl, rfl⟩ := Ty.func.inj (Option.some.inj hsignature)
    · obtain ⟨v, rfl, hv⟩ := Value.singleton_inv hargs
      obtain ⟨n, rfl⟩ := hv.int_inv
      exact Option.some_ne_none _
    · obtain ⟨v, rfl, hv⟩ := Value.singleton_inv hargs
      obtain ⟨p, rfl⟩ := hv.bool_inv
      exact Option.some_ne_none _

/-! ## What is written -/

/-- The text of a value stays in its line. -/
theorem feed_not_mem_text (v : Value) : '\n' ∉ v.text.toList := by
  have hdigits (k : Nat) : '\n' ∉ Nat.toDigits 10 k := fun hmem =>
    absurd (Nat.isDigit_of_mem_toDigits (by decide) (by decide) hmem) (by decide)
  cases v with
  | int n =>
    rw [Value.text, Decimal.ofInt64]
    rcases n.toInt with k | k <;>
      simp [Decimal.ofInt, hdigits]
  | bool p => cases p <;> decide
  | unit => decide
  | builtin b => cases b <;> decide

/-- An output that has room takes a line. -/
theorem print?_of_room {out : Output} (hroom : out.room ≠ some 0) (line : String) :
    ∃ out', out.print? line = some out' ∧ out'.lines = out.lines ++ [line] := by
  obtain ⟨lines, _ | _ | n⟩ := out
  · exact ⟨_, rfl, rfl⟩
  · contradiction
  · exact ⟨_, rfl, rfl⟩

/-- What there is in the output when a builtin has succeeded: the text of its operand on a line of
    its own if it is one that prints, and else what there was. -/
def Wrote (b : Builtin) (args : List Value) (out out' : Output) : Prop :=
  (b.IsPrint → ∃ v, args = [v] ∧ '\n' ∉ v.text.toList ∧ out'.lines = out.lines ++ [v.text]) ∧
    (¬b.IsPrint → out' = out)

section

variable {out : Output}

theorem apply_of_not_takes (h : ∀ result, ¬b.Takes args result) :
    b.apply args out = .error (.badOperands b (args.map Value.kind)) := by
  have hsilent : b.lineOf? args = none := by
    by_contra hline
    obtain ⟨line, hline⟩ := Option.ne_none_iff_exists'.1 hline
    exact h _ (takes_of_lineOf? hline).2.1
  simp only [apply, hsilent, compute_of_not_takes h]
  rfl

theorem apply_of_dividesByZero (h : b.DividesByZero args) :
    b.apply args out = .error .divisionByZero := by
  obtain ⟨rfl | rfl, m, rfl⟩ := h <;> rfl

/-- A builtin succeeds at operands that it takes, unless it divides by zero. -/
theorem apply_of_takes (hroom : out.room ≠ some 0) (h : b.Takes args result)
    (hzero : ¬b.DividesByZero args) :
    ∃ v out', b.apply args out = .ok (v, out') ∧ v.OfType result ∧ b.Wrote args out out' := by
  rcases hline : b.lineOf? args with _ | line
  · have hquiet : ¬b.IsPrint := fun hprint => lineOf?_ne_none hprint h hline
    have hvalue := compute_of_takes h hline
    simp only [apply, hline]
    rcases hcompute : b.compute args with cause | v <;> rw [hcompute] at hvalue
    · obtain rfl : cause = .divisionByZero := hvalue
      exact absurd (compute_eq_divisionByZero_iff.1 hcompute) hzero
    · exact ⟨v, out, rfl, hvalue, fun hprint => absurd hprint hquiet, fun _ => rfl⟩
  · obtain ⟨hprint, -, v, rfl, rfl⟩ := takes_of_lineOf? hline
    obtain ⟨out', hout, hlines⟩ := print?_of_room hroom v.text
    have hunit : result = .unit := by
      cases h with
      | signed hsignature => exact result_of_lineOf? hsignature hline
    simp only [apply, hline, hout]
    exact ⟨_, _, rfl, hunit, fun _ => ⟨v, rfl, feed_not_mem_text v, hlines⟩,
      fun hquiet => absurd hprint hquiet⟩

/-- A builtin refuses what it does not take, and has no other fault than a division by zero. -/
theorem apply_eq_error_iff (hroom : out.room ≠ some 0) {cause : Fault} :
    b.apply args out = .error cause ↔
      cause = .badOperands b (args.map Value.kind) ∧ (∀ result, ¬b.Takes args result) ∨
      cause = .divisionByZero ∧ b.DividesByZero args := by
  constructor
  · intro h
    by_cases htakes : ∃ result, b.Takes args result
    · obtain ⟨result, htakes⟩ := htakes
      by_cases hzero : b.DividesByZero args
      · rw [apply_of_dividesByZero hzero] at h
        exact .inr ⟨(Except.error.inj h).symm, hzero⟩
      · obtain ⟨v, out', hvalue, -⟩ := apply_of_takes hroom htakes hzero
        rw [hvalue] at h
        contradiction
    · have hnone := not_exists.1 htakes
      rw [apply_of_not_takes hnone] at h
      exact .inl ⟨(Except.error.inj h).symm, hnone⟩
  · rintro (⟨rfl, hnone⟩ | ⟨rfl, hzero⟩)
    · exact apply_of_not_takes hnone
    · exact apply_of_dividesByZero hzero

/-- Where a builtin succeeds it has taken its operands. -/
theorem of_apply_eq_ok (hroom : out.room ≠ some 0) {v : Value} {out' : Output}
    (h : b.apply args out = .ok (v, out')) :
    ∃ result, b.Takes args result ∧ v.OfType result ∧ b.Wrote args out out' := by
  have hnoError (cause : Fault) : b.apply args out ≠ .error cause := fun herror => by
    rw [h] at herror
    contradiction
  obtain ⟨result, htakes⟩ : ∃ result, b.Takes args result := by
    by_contra hnone
    exact hnoError _ (apply_of_not_takes (not_exists.1 hnone))
  have hzero : ¬b.DividesByZero args := fun hzero => hnoError _ (apply_of_dividesByZero hzero)
  obtain ⟨_, _, hvalue, hof, hwrote⟩ := apply_of_takes hroom htakes hzero
  obtain ⟨rfl, rfl⟩ := Prod.mk.inj (Except.ok.inj (hvalue.symm.trans h))
  exact ⟨result, htakes, hof, hwrote⟩

/-- An evaluation that a fault stops has written nothing at the builtin. -/
theorem output_of_apply_error {scopes : Scopes Value} {loc : Location} {e : RuntimeError}
    {s : Eval.State} (h : Eval.apply b args loc ⟨scopes, out⟩ = .error e s) : s.output = out := by
  unfold Eval.apply at h
  split at h
  · contradiction
  · cases h
    rfl

end

/-- Builtins do what their signatures say.  While the output has room for a line, a builtin refuses
    just the operands that do not match its parameters in number and kind, or that are not two of a
    kind for the two builtins without a signature.  At all others it has a value of its result type,
    except that a division by zero fails.  It writes one line if it is one that prints and succeeds,
    and nothing otherwise. -/
theorem apply_matches_signature (b : Builtin) (args : List Value) (out : Output)
    (hroom : out.room ≠ some 0) :
    (b.signature? = none ↔ b = .equal ∨ b = .notEqual) ∧
    (∀ ty, b.signature? = some ty → ∃ params result, ty = .func params result) ∧
    (∀ cause, b.apply args out = .error cause ↔
      cause = .badOperands b (args.map Value.kind) ∧ (∀ result, ¬b.Takes args result) ∨
      cause = .divisionByZero ∧ b.DividesByZero args) ∧
    (∀ v out', b.apply args out = .ok (v, out') →
      ∃ result, b.Takes args result ∧ v.OfType result ∧ b.Wrote args out out') ∧
    ∀ scopes loc e s, Eval.apply b args loc ⟨scopes, out⟩ = .error e s → s.output = out := by
  exact ⟨signature?_eq_none_iff, fun _ => exists_of_signature, fun _ => apply_eq_error_iff hroom,
    fun _ _ => of_apply_eq_ok hroom, fun _ _ _ _ => output_of_apply_error⟩

/-- With room for one line: a division by zero, two operands for one parameter, a line. -/
theorem apply_matches_signature_room : (Output.withRoom (some 1)).room ≠ some 0 ∧
    remainder.apply [.int 7, .int 0] (.withRoom (some 1)) = .error .divisionByZero ∧
    printInt.apply [.int 7, .int 0] (.withRoom (some 1))
      = .error (.badOperands .printInt [.int, .int]) ∧
    ∃ out', printBool.apply [.bool true] (.withRoom (some 1)) = .ok (.unit, out') ∧
      printBool.Wrote [.bool true] (.withRoom (some 1)) out' := by
  have hroom : (Output.withRoom (some 1)).room ≠ some 0 := by decide
  obtain ⟨-, -, hdivide, -⟩ :=
    apply_matches_signature remainder [.int 7, .int 0] (.withRoom (some 1)) hroom
  obtain ⟨-, -, hrefuse, -⟩ :=
    apply_matches_signature printInt [.int 7, .int 0] (.withRoom (some 1)) hroom
  obtain ⟨-, -, -, hprint, -⟩ :=
    apply_matches_signature printBool [.bool true] (.withRoom (some 1)) hroom
  refine ⟨hroom, (hdivide _).2 (.inr ⟨rfl, .inr rfl, 7, rfl⟩),
    (hrefuse _).2 (.inl ⟨rfl, fun result h => ?_⟩), _, rfl, ?_⟩
  · cases h with
    | signed hsignature hkinds =>
      obtain ⟨rfl, -⟩ := Ty.func.inj (Option.some.inj hsignature)
      contradiction
    | compared hunsigned => contradiction
  · obtain ⟨_, -, -, hwrote⟩ := hprint _ _ rfl
    exact hwrote

end Builtin
end ExprLang
