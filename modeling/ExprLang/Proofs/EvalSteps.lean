/-
  STEPS OF EVALUATION: what the small steps of the evaluator lead to.

  A name that is bound, a builtin where one is wanted, a Boolean where one is wanted: then a step
  cannot fail, and what it leads to is what its result is good for.  With these equations the
  evaluation of an expression is followed from its first operand to its last, and only the
  builtins are left to be asked whether they give a value.
-/
import ExprLang.Eval
import ExprLang.Proofs.Effects

namespace ExprLang.Eval

variable {s : State} {n : String} {loc : Location} {bad : RuntimeError → State → Prop}

/-- Looking up a bound name goes on with its value and changes nothing. -/
theorem leads_lookup {good : Value → State → Prop} {v : Value} (h : s.scopes.lookup n = some v) :
    Leads (lookup n loc) s good bad ↔ good v s := by
  simp only [Leads, lookup, h]

/-- A declaration cannot fail. -/
@[simp] theorem leads_define {good : Unit → State → Prop} {v : Value} :
    Leads (define n v) s good bad ↔ good () { s with scopes := s.scopes.define n v } := Iff.rfl

/-- An assignment to a bound name cannot fail either. -/
theorem leads_assign {good : Unit → State → Prop} {v : Value}
    (h : s.scopes.contains n = true) :
    Leads (assign n v loc) s good bad ↔
      good () { s with scopes := s.scopes.modify n fun _ => v } := by
  simp only [Leads, assign, Scopes.assign?, h, if_true]

/-- A builtin function may be called. -/
@[simp] theorem leads_asBuiltin {good : Builtin → State → Prop} {b : Builtin} :
    Leads (asBuiltin (.builtin b) loc) s good bad ↔ good b s := Iff.rfl

/-- A Boolean may decide a condition. -/
@[simp] theorem leads_asBool {good : Bool → State → Prop} {b : Bool} :
    Leads (asBool (.bool b) loc) s good bad ↔ good b s := Iff.rfl

/-- An operator that is bound to a builtin function is that function. -/
theorem leads_operator {good : Builtin → State → Prop} {b : Builtin}
    (h : s.scopes.lookup n = some (.builtin b)) :
    Leads (operator n loc) s good bad ↔ good b s := by
  rw [operator, leads_bind, leads_lookup h, leads_asBuiltin]

/-- A builtin gives a value and changes the output only, or its fault stops the program. -/
theorem leads_apply {good : Value → State → Prop} {b : Builtin} {args : List Value} :
    Leads (apply b args loc) s good bad ↔
      match b.apply args s.output with
      | .ok (v, output) => good v { s with output }
      | .error cause => bad (.fault cause loc) s := by
  unfold Leads apply
  rcases b.apply args s.output with cause | ⟨v, output⟩ <;> exact Iff.rfl

/-- Whatever comes of a scope of its own, the scope is gone afterwards. -/
theorem leads_inScope {α : Type} {act : Run α} {good : α → State → Prop} :
    Leads (inScope act) s good bad ↔
      Leads act s.push (fun a s' => good a s'.pop) fun e s' => bad e s'.pop :=
  leads_within

/-! ## The three meanings of a binary operator -/

/-- An assignment evaluates its value before it looks for the variable, and is worth that value. -/
theorem eval_assign {nameLoc : Location} {right : Expr} :
    eval (.binary loc "=" (.name nameLoc n) right) = (do
      let v ← eval right
      assign n v nameLoc
      pure v) := by
  rw [eval, if_pos rfl]

/-- `and` and `or` evaluate their right side only when the left one has not decided. -/
theorem eval_logic {op : String} {left right : Expr} (hop : op = "and" ∨ op = "or") :
    eval (.binary loc op left right) = (do
      let v ← eval left
      let decided ← asBool v left.location
      if decided = decide (op = "or") then pure (.bool decided)
      else do
        let w ← eval right
        let result ← asBool w right.location
        pure (.bool result)) := by
  have hassign : op ≠ "=" := by rcases hop with rfl | rfl <;> decide
  rw [eval.eq_def]
  simp only [if_neg hassign, if_pos hop]

/-- Every other operator is a builtin that is looked up first. -/
theorem eval_operation {op : String} {left right : Expr} (hassign : op ≠ "=")
    (hlogic : ¬(op = "and" ∨ op = "or")) :
    eval (.binary loc op left right) = (do
      let b ← operator op loc
      let v ← eval left
      let w ← eval right
      apply b [v, w] loc) := by
  rw [eval.eq_def]
  simp only [if_neg hassign, if_neg hlogic]

end ExprLang.Eval
