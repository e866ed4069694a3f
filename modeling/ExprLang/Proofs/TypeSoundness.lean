/-
  TYPE SOUNDNESS: a program that passes the check goes wrong in no way that a type describes.

  The checker and the evaluator walk chains of scopes of their own.  `Agree` compares them level
  by level: a name that a program can write is bound in both or in neither, and its value is of
  its type; every other name is bound as at the root, where each operator is the builtin of its
  signature.  No step breaks this, so a checked program evaluates to a value of its type unless
  it divides by zero or runs out of room for its output.

  The one subtle point is that a program may bind and overwrite `unary_not`, which is an operator
  too.  Whatever it is bound to has a type, and a builtin that a program can name is determined by
  its type.
-/
import Mathlib
import ExprLang.Proofs.EvalSteps
import ExprLang.Proofs.TypingRules

namespace ExprLang

/-! ## Values of a type -/

/-- Whether a value is of a type.  A function is a builtin that programs can name. -/
def Value.OfType : Value → Ty → Prop
  | .int _, ty => ty = .int
  | .bool _, ty => ty = .bool
  | .unit, ty => ty = .unit
  | .builtin b, ty => b.InReach ∧ b.signature? = some ty

namespace Value

variable {v w : Value} {ty : Ty}

/-- Builtins have function types. -/
theorem not_ofType_builtin {b : Builtin} (hty : ∀ params result, ty ≠ .func params result) :
    ¬(Value.builtin b).OfType ty := by
  rintro ⟨hreach, hsignature⟩
  rcases hreach with rfl | rfl | rfl <;>
    exact hty _ _ (Option.some.inj hsignature).symm

/-- A value of this type is a number. -/
theorem OfType.int_inv (h : v.OfType .int) : ∃ n, v = .int n := by
  cases v with
  | int n => exact ⟨n, rfl⟩
  | builtin b => exact absurd h (not_ofType_builtin (by simp))
  | _ => contradiction

/-- A value of this type is a truth value. -/
theorem OfType.bool_inv (h : v.OfType .bool) : ∃ b, v = .bool b := by
  cases v with
  | bool b => exact ⟨b, rfl⟩
  | builtin b => exact absurd h (not_ofType_builtin (by simp))
  | _ => contradiction

/-- There is one value of this type. -/
theorem OfType.unit_inv (h : v.OfType .unit) : v = .unit := by
  cases v with
  | unit => rfl
  | builtin b => exact absurd h (not_ofType_builtin (by simp))
  | _ => contradiction

/-- A function is a builtin that a source can name, of the signature. -/
theorem OfType.func_inv {params : List Ty} {result : Ty} (h : v.OfType (.func params result)) :
    ∃ b : Builtin, v = .builtin b ∧ b.InReach ∧ b.signature? = some (.func params result) := by
  cases v with
  | builtin b => exact ⟨b, rfl, h⟩
  | _ => contradiction

/-- Two values of a function type are the same builtin. -/
theorem OfType.eq_of_func {params : List Ty} {result : Ty} (hv : v.OfType (.func params result))
    (hw : w.OfType (.func params result)) : v = w := by
  obtain ⟨a, rfl, ha, hta⟩ := hv.func_inv
  obtain ⟨b, rfl, hb, htb⟩ := hw.func_inv
  rw [Builtin.eq_of_signature ha hb hta htb]

/-- Values of one type are of one kind. -/
theorem OfType.kind_eq (hv : v.OfType ty) (hw : w.OfType ty) : v.kind = w.kind := by
  cases ty with
  | int =>
    obtain ⟨m, rfl⟩ := hv.int_inv
    obtain ⟨n, rfl⟩ := hw.int_inv
    rfl
  | bool =>
    obtain ⟨p, rfl⟩ := hv.bool_inv
    obtain ⟨q, rfl⟩ := hw.bool_inv
    rfl
  | unit => rw [hv.unit_inv, hw.unit_inv]
  | func params result => rw [hv.eq_of_func hw]

end Value

/-! ## Builtins at their signatures -/

/-- The faults that a checked program may end with, given whether its output is limited. -/
def Fault.Excused (limited : Bool) (cause : Fault) : Prop :=
  cause = .divisionByZero ∨ cause = .outputClosed ∧ limited = true

/-- Printing leaves an output limited or unlimited. -/
theorem Output.room_of_print? {line : String} {out out' : Output}
    (h : out.print? line = some out') : out'.room.isSome = out.room.isSome := by
  unfold print? at h
  split at h <;> simp_all <;> subst h <;> rfl

/-- Only a limited output refuses a line. -/
theorem Output.limited_of_print? {line : String} {out : Output} (h : out.print? line = none) :
    out.room.isSome = true := by
  unfold print? at h
  split at h <;> simp_all

section

variable {args : List Value}

/-- Two operands of this type are numbers. -/
theorem Value.int_int_inv (h : List.Forall₂ Value.OfType args [.int, .int]) :
    ∃ m n, args = [.int m, .int n] := by
  obtain _ | ⟨hm, _ | ⟨hn, _ | _⟩⟩ := h
  obtain ⟨m, rfl⟩ := hm.int_inv
  obtain ⟨n, rfl⟩ := hn.int_inv
  exact ⟨m, n, rfl⟩

/-- Two operands of this type are truth values. -/
theorem Value.bool_bool_inv (h : List.Forall₂ Value.OfType args [.bool, .bool]) :
    ∃ p q, args = [.bool p, .bool q] := by
  obtain _ | ⟨hp, _ | ⟨hq, _ | _⟩⟩ := h
  obtain ⟨p, rfl⟩ := hp.bool_inv
  obtain ⟨q, rfl⟩ := hq.bool_inv
  exact ⟨p, q, rfl⟩

/-- One type stands for one operand. -/
theorem Value.singleton_inv {ty : Ty} (h : List.Forall₂ Value.OfType args [ty]) :
    ∃ v, args = [v] ∧ v.OfType ty := by
  obtain _ | ⟨hv, _ | _⟩ := h
  exact ⟨_, rfl, hv⟩

variable {b : Builtin} {params : List Ty} {result : Ty}

/-- What a builtin computes from operands of its signature is of its result type, unless it
    divides by zero. -/
theorem Builtin.compute_ofType (hsignature : b.signature? = some (.func params result))
    (hargs : List.Forall₂ Value.OfType args params) (hsilent : b.lineOf? args = none) :
    match b.compute args with
    | .ok v => v.OfType result
    | .error cause => cause = .divisionByZero := by
  cases b with
  -- the comparisons of any two values have no signature
  | equal | notEqual => contradiction
  | add | subtract | multiply | less | lessEqual | greater | greaterEqual =>
    obtain ⟨rfl, rfl⟩ := Ty.func.inj (Option.some.inj hsignature)
    obtain ⟨m, n, rfl⟩ := Value.int_int_inv hargs
    rfl
  | divide | remainder =>
    obtain ⟨rfl, rfl⟩ := Ty.func.inj (Option.some.inj hsignature)
    obtain ⟨m, n, rfl⟩ := Value.int_int_inv hargs
    rcases Decidable.em (n = 0) with hzero | hzero
    · simp only [compute, if_pos hzero]
    · simp only [compute, if_neg hzero]
      rfl
  | and | or =>
    obtain ⟨rfl, rfl⟩ := Ty.func.inj (Option.some.inj hsignature)
    obtain ⟨p, q, rfl⟩ := Value.bool_bool_inv hargs
    rfl
  | negate =>
    obtain ⟨rfl, rfl⟩ := Ty.func.inj (Option.some.inj hsignature)
    obtain ⟨v, rfl, hv⟩ := Value.singleton_inv hargs
    obtain ⟨n, rfl⟩ := hv.int_inv
    rfl
  | not =>
    obtain ⟨rfl, rfl⟩ := Ty.func.inj (Option.some.inj hsignature)
    obtain ⟨v, rfl, hv⟩ := Value.singleton_inv hargs
    obtain ⟨p, rfl⟩ := hv.bool_inv
    rfl
  | printInt =>
    obtain ⟨rfl, rfl⟩ := Ty.func.inj (Option.some.inj hsignature)
    obtain ⟨v, rfl, hv⟩ := Value.singleton_inv hargs
    obtain ⟨n, rfl⟩ := hv.int_inv
    contradiction
  | printBool =>
    obtain ⟨rfl, rfl⟩ := Ty.func.inj (Option.some.inj hsignature)
    obtain ⟨v, rfl, hv⟩ := Value.singleton_inv hargs
    obtain ⟨p, rfl⟩ := hv.bool_inv
    contradiction

/-- A builtin that prints gives unit. -/
theorem Builtin.result_of_lineOf? (hsignature : b.signature? = some (.func params result))
    {line : String} (hline : b.lineOf? args = some line) : result = .unit := by
  cases b with
  | printInt | printBool => exact (Ty.func.inj (Option.some.inj hsignature)).2.symm
  | _ => contradiction

/-- At operands of its signature a builtin gives a value of its result type, or has a fault that
    is excused. -/
theorem Builtin.apply_ofType (hsignature : b.signature? = some (.func params result))
    (hargs : List.Forall₂ Value.OfType args params) (out : Output) :
    match b.apply args out with
    | .ok (v, out') => v.OfType result ∧ out'.room.isSome = out.room.isSome
    | .error cause => cause.Excused out.room.isSome := by
  rcases hline : b.lineOf? args with _ | line
  · have hvalue := compute_ofType hsignature hargs hline
    simp only [apply, hline]
    rcases hcompute : b.compute args with cause | v <;> rw [hcompute] at hvalue
    · exact .inl hvalue
    · exact ⟨hvalue, rfl⟩
  · have hunit := result_of_lineOf? hsignature hline
    simp only [apply, hline]
    rcases hprint : out.print? line with _ | out'
    · exact .inr ⟨rfl, Output.limited_of_print? hprint⟩
    · exact ⟨hunit, Output.room_of_print? hprint⟩

end

/-- Two values of one type can always be compared. -/
theorem Builtin.apply_compare {v w : Value} {ty : Ty} (hv : v.OfType ty) (hw : w.OfType ty)
    {b : Builtin} (hb : b = .equal ∨ b = .notEqual) (out : Output) :
    ∃ answer, b.apply [v, w] out = .ok (.bool answer, out) := by
  have hkind := hv.kind_eq hw
  rcases hb with rfl | rfl
  · exact ⟨_, by simp only [apply, lineOf?, compute, if_pos hkind]; rfl⟩
  · exact ⟨_, by simp only [apply, lineOf?, compute, if_pos hkind]; rfl⟩

/-! ## Types and values in scope -/

/-- A program starts with every builtin under its name. -/
theorem Eval.binding_rootScopes {n : String} {v : Value} :
    Eval.rootScopes.binding 0 n = some v ↔ ∃ b : Builtin, b.name = n ∧ v = .builtin b := by
  have hmem (m : String) (w : Value) :
      (m, w) ∈ Builtin.all.map (fun b => (b.name, Value.builtin b)) ↔
        ∃ b : Builtin, b.name = m ∧ w = .builtin b := by
    simp only [List.mem_map, Prod.mk.injEq]
    constructor
    · rintro ⟨b, -, hname, rfl⟩
      exact ⟨b, hname, rfl⟩
    · rintro ⟨b, hname, rfl⟩
      exact ⟨b, b.mem_all, hname, rfl⟩
  rw [Eval.rootScopes, Scopes.binding_ofList, hmem]
  intro m v w hv hw
  obtain ⟨a, ha, rfl⟩ := (hmem m v).1 hv
  obtain ⟨b, hb, rfl⟩ := (hmem m w).1 hw
  rw [Builtin.name_injective (ha.trans hb.symm)]

theorem Eval.depth_rootScopes : Eval.rootScopes.depth = 0 := Scopes.depth_ofList _

/-- To begin with each builtin is bound to itself, and nothing else is bound. -/
theorem Eval.lookup_rootScopes {n : String} {v : Value} :
    Eval.rootScopes.lookup n = some v ↔ ∃ b : Builtin, b.name = n ∧ v = .builtin b := by
  rw [Scopes.lookup_of_depth_eq_zero Eval.depth_rootScopes]
  exact Eval.binding_rootScopes

/-- Types and values bind the same names at the same levels, as far as a program can name them,
    and each value is of its type.  All other names are bound as at the root. -/
structure Agree (Γ : Scopes Ty) (ρ : Scopes Value) : Prop where
  depth : ρ.depth = Γ.depth
  typed : ∀ l n, SourceName n → Option.Rel Value.OfType (ρ.binding l n) (Γ.binding l n)
  types : ∀ l n, ¬SourceName n → Γ.binding l n = Typing.rootScopes.binding l n
  values : ∀ l n, ¬SourceName n → ρ.binding l n = Eval.rootScopes.binding l n

namespace Agree

variable {Γ : Scopes Ty} {ρ : Scopes Value} {n : String} {v : Value} {ty : Ty}

/-- A program starts in scopes that agree. -/
theorem root : Agree Typing.rootScopes Eval.rootScopes where
  depth := by rw [Eval.depth_rootScopes, Typing.depth_rootScopes]
  types _ _ _ := rfl
  values _ _ _ := rfl
  typed l n hname := by
    rcases Nat.eq_zero_or_pos l with rfl | hpos
    · rcases hvalue : Eval.rootScopes.binding 0 n with _ | v
      · rcases htype : Typing.rootScopes.binding 0 n with _ | ty
        · exact .none
        · obtain ⟨b, hb, -⟩ := Typing.binding_rootScopes.1 htype
          rw [Eval.binding_rootScopes.2 ⟨b, hb, rfl⟩] at hvalue
          contradiction
      · obtain ⟨b, rfl, rfl⟩ := Eval.binding_rootScopes.1 hvalue
        have hreach := (sourceName_name_iff b).1 hname
        obtain ⟨ty, hsignature⟩ := hreach.signature
        rw [Typing.binding_rootScopes.2 ⟨b, rfl, hsignature⟩]
        exact .some ⟨hreach, hsignature⟩
    · rw [Scopes.binding_of_depth_lt (by rwa [Eval.depth_rootScopes]),
        Scopes.binding_of_depth_lt (by rwa [Typing.depth_rootScopes])]
      exact .none

/-- Scopes that agree do so when both enter a new one. -/
theorem push (h : Agree Γ ρ) : Agree Γ.push ρ.push where
  depth := by rw [Scopes.depth_push, Scopes.depth_push, h.depth]
  typed l n hname := by
    rw [Scopes.binding_push, Scopes.binding_push]
    exact h.typed l n hname
  types l n hname := (Scopes.binding_push Γ l n).trans (h.types l n hname)
  values l n hname := (Scopes.binding_push ρ l n).trans (h.values l n hname)

/-- They do so when both leave one. -/
theorem pop (h : Agree Γ ρ) (hinner : 0 < Γ.depth) : Agree Γ.pop ρ.pop where
  depth := by
    have hΓ := Scopes.depth_pop hinner
    have hρ := Scopes.depth_pop (s := ρ) (by rw [h.depth]; exact hinner)
    have hdepth := h.depth
    omega
  typed l n hname := by
    rw [Scopes.binding_pop hinner, Scopes.binding_pop (by rw [h.depth]; exact hinner), h.depth]
    split
    · exact h.typed l n hname
    · exact .none
  types l n hname := by
    rw [Scopes.binding_pop hinner]
    split
    · exact h.types l n hname
    · rename_i hlevel
      rw [Scopes.binding_of_depth_lt]
      rw [Typing.depth_rootScopes]
      omega
  values l n hname := by
    rw [Scopes.binding_pop (by rw [h.depth]; exact hinner), h.depth]
    split
    · exact h.values l n hname
    · rename_i hlevel
      rw [Scopes.binding_of_depth_lt]
      rw [Eval.depth_rootScopes]
      omega

/-- They do so when a name is declared with a type and a value of it. -/
theorem define (h : Agree Γ ρ) (hname : SourceName n) (hv : v.OfType ty) :
    Agree (Γ.define n ty) (ρ.define n v) where
  depth := by rw [Scopes.depth_define, Scopes.depth_define, h.depth]
  typed l m hm := by
    rw [Scopes.binding_define, Scopes.binding_define, h.depth]
    split
    · exact .some hv
    · exact h.typed l m hm
  types l m hm := by
    have hne : n ≠ m := fun heq => hm (heq ▸ hname)
    rw [Scopes.binding_define, if_neg (fun hc => hne hc.2)]
    exact h.types l m hm
  values l m hm := by
    have hne : n ≠ m := fun heq => hm (heq ▸ hname)
    rw [Scopes.binding_define, if_neg (fun hc => hne hc.2)]
    exact h.values l m hm

/-- Both chains resolve a name at the same level. -/
theorem level?_eq (h : Agree Γ ρ) (hname : SourceName n) : ρ.level? n = Γ.level? n := by
  refine Scopes.level?_congr ?_
  intro l
  have hrel := h.typed l n hname
  rcases hρ : ρ.binding l n with _ | v <;> rcases hΓ : Γ.binding l n with _ | ty <;>
    rw [hρ, hΓ] at hrel
  · rfl
  · contradiction
  · contradiction
  · rfl

/-- A name has a value of its type. -/
theorem lookup (h : Agree Γ ρ) (hname : SourceName n) (hbound : Γ.lookup n = some ty) :
    ∃ v, ρ.lookup n = some v ∧ v.OfType ty := by
  obtain ⟨l, hlevel, hbinding⟩ := Scopes.lookup_eq_some_iff.1 hbound
  have hrel := h.typed l n hname
  rw [hbinding] at hrel
  rcases hρ : ρ.binding l n with _ | v <;> rw [hρ] at hrel
  · contradiction
  · cases hrel with
    | some hv =>
      exact ⟨v, Scopes.lookup_eq_some_iff.2 ⟨l, (h.level?_eq hname).trans hlevel, hρ⟩, hv⟩

/-- A name may be overwritten with another value of its type. -/
theorem modify (h : Agree Γ ρ) (hname : SourceName n) (hbound : Γ.lookup n = some ty)
    (hv : v.OfType ty) : Agree Γ (ρ.modify n fun _ => v) where
  depth := by rw [Scopes.depth_modify, h.depth]
  typed l m hm := by
    have hrel := h.typed l m hm
    rw [Scopes.binding_modify, h.level?_eq hname]
    split
    · -- the binding that is overwritten is the one whose type was checked
      rename_i hhere
      obtain ⟨hlevel, rfl⟩ := hhere
      obtain ⟨l', hlevel', hbinding⟩ := Scopes.lookup_eq_some_iff.1 hbound
      obtain rfl := Option.some.inj (hlevel.symm.trans hlevel')
      rw [hbinding] at hrel ⊢
      rcases hρ : ρ.binding l n with _ | w <;> rw [hρ] at hrel
      · contradiction
      · exact .some hv
    · exact hrel
  types := h.types
  values l m hm := by
    have hne : n ≠ m := fun heq => hm (heq ▸ hname)
    rw [Scopes.binding_modify, if_neg (fun hc => hne hc.2)]
    exact h.values l m hm

/-- Whatever an operator is bound to, it is a builtin with the signature that was checked. -/
theorem operator (h : Agree Γ ρ) {params : List Ty} {result : Ty}
    (hbound : Γ.lookup n = some (.func params result)) :
    ∃ b : Builtin, ρ.lookup n = some (.builtin b) ∧ b.signature? = some (.func params result) := by
  by_cases hname : SourceName n
  · obtain ⟨v, hlookup, hv⟩ := h.lookup hname hbound
    obtain ⟨b, rfl, -, hsignature⟩ := hv.func_inv
    exact ⟨b, hlookup, hsignature⟩
  · rw [Scopes.lookup_congr fun l => h.types l n hname] at hbound
    obtain ⟨b, rfl, hsignature⟩ := Typing.lookup_rootScopes.1 hbound
    refine ⟨b, ?_, hsignature⟩
    rw [Scopes.lookup_congr fun l => h.values l _ hname]
    exact Eval.lookup_rootScopes.2 ⟨b, rfl, rfl⟩

/-- What a program cannot name stays what it is. -/
theorem lookup_eq {ρ' : Scopes Value} (h : Agree Γ ρ) (h' : Agree Γ ρ') (hname : ¬SourceName n) :
    ρ'.lookup n = ρ.lookup n :=
  Scopes.lookup_congr fun l => (h'.values l n hname).trans (h.values l n hname).symm

/-- An operator stays the same builtin as long as its type stays the same. -/
theorem operator_eq {ρ' : Scopes Value} (h : Agree Γ ρ) (h' : Agree Γ ρ') {params : List Ty}
    {result : Ty} (hbound : Γ.lookup n = some (.func params result)) :
    ρ'.lookup n = ρ.lookup n := by
  by_cases hname : SourceName n
  · obtain ⟨v, hv, hvType⟩ := h.lookup hname hbound
    obtain ⟨w, hw, hwType⟩ := h'.lookup hname hbound
    rw [hv, hw, hwType.eq_of_func hvType]
  · exact h.lookup_eq h' hname

/-- A comparison is always the builtin of its name. -/
theorem comparison (h : Agree Γ ρ) {op : String} (hop : op = "==" ∨ op = "!=") :
    ∃ b : Builtin, ρ.lookup op = some (.builtin b) ∧ (b = .equal ∨ b = .notEqual) := by
  rcases hop with rfl | rfl
  · rw [Scopes.lookup_congr fun l => h.values l "==" (by decide)]
    exact ⟨.equal, rfl, .inl rfl⟩
  · rw [Scopes.lookup_congr fun l => h.values l "!=" (by decide)]
    exact ⟨.notEqual, rfl, .inr rfl⟩

end Agree

/-! ## Evaluation of what was checked -/

namespace Eval

/-- A state whose values agree with the types in scope, and whose output is limited or not. -/
structure State.Sound (Γ : Scopes Ty) (limited : Bool) (s : State) : Prop where
  agree : Agree Γ s.scopes
  room : s.output.room.isSome = limited

/-- The run-time errors that a checked program may end with. -/
def Excused (limited : Bool) (e : RuntimeError) : Prop :=
  ∃ cause loc, e = .fault cause loc ∧ cause.Excused limited

variable {Γ : Scopes Ty} {limited : Bool} {s : State}

/-- The application of a builtin at operands of its signature. -/
theorem leads_apply_ofType {b : Builtin} {params : List Ty} {result : Ty} {args : List Value}
    {loc : Location} (hsignature : b.signature? = some (.func params result))
    (hargs : List.Forall₂ Value.OfType args params) (hs : s.Sound Γ limited) :
    Leads (apply b args loc) s (fun v s' => v.OfType result ∧ s'.Sound Γ limited)
      fun e _ => Excused limited e := by
  rw [leads_apply]
  have h := Builtin.apply_ofType hsignature hargs s.output
  rcases happly : b.apply args s.output with cause | ⟨v, output⟩ <;> rw [happly] at h
  · exact ⟨cause, loc, rfl, hs.room ▸ h⟩
  · exact ⟨h.1, hs.agree, h.2.trans hs.room⟩

mutual

/-- A checked expression evaluates to a value of its type, in scopes that still agree. -/
theorem leads_of_hasType {Γ : Scopes Ty} {e : Expr} {ty : Ty} {s : State} :
    Typing.HasType Γ e ty → s.Sound Γ limited →
      Leads (eval e) s (fun v s' => v.OfType ty ∧ s'.Sound Γ limited)
        fun e _ => Excused limited e
  | .int, hs => ⟨rfl, hs⟩
  | .bool, hs => ⟨rfl, hs⟩
  | .unit, hs => ⟨rfl, hs⟩
  | .name hname hbound, hs => by
    obtain ⟨v, hlookup, hv⟩ := hs.agree.lookup hname hbound
    rw [eval, leads_lookup hlookup]
    exact ⟨hv, hs⟩
  | .unary hbound hoperand, hs => by
    -- the operator is looked up in front of its operand
    obtain ⟨b, hlookup, hsignature⟩ := hs.agree.operator hbound
    rw [eval, leads_bind, leads_operator hlookup]
    refine (leads_of_hasType hoperand hs).bind ?_
    intro v s₁ ⟨hv, hs₁⟩
    exact leads_apply_ofType hsignature (.cons hv .nil) hs₁
  | .assign hname hbound hright, hs => by
    rw [eval_assign]
    refine (leads_of_hasType hright hs).bind ?_
    intro v s₁ ⟨hv, hs₁⟩
    obtain ⟨w, hlookup, -⟩ := hs₁.agree.lookup hname hbound
    rw [leads_bind, leads_assign (Scopes.contains_of_lookup hlookup)]
    exact ⟨hv, hs₁.agree.modify hname hbound hv, hs₁.room⟩
  | .logic hop hleft hright, hs => by
    rw [eval_logic hop]
    refine (leads_of_hasType hleft hs).bind ?_
    intro v s₁ ⟨hv, hs₁⟩
    obtain ⟨decided, rfl⟩ := hv.bool_inv
    rw [leads_bind, leads_asBool]
    split
    · exact ⟨rfl, hs₁⟩
    · refine (leads_of_hasType hright hs₁).bind ?_
      intro w s₂ ⟨hw, hs₂⟩
      obtain ⟨answer, rfl⟩ := hw.bool_inv
      exact ⟨rfl, hs₂⟩
  | .compare hop hleft hright, hs => by
    obtain ⟨b, hlookup, hb⟩ := hs.agree.comparison hop
    rw [eval_operation (Typing.ne_assign_of_compare hop) (Typing.not_logic_of_compare hop),
      leads_bind, leads_operator hlookup]
    refine (leads_of_hasType hleft hs).bind ?_
    intro v s₁ ⟨hv, hs₁⟩
    refine (leads_of_hasType hright hs₁).bind ?_
    intro w s₂ ⟨hw, hs₂⟩
    obtain ⟨answer, happly⟩ := Builtin.apply_compare hv hw hb s₂.output
    rw [leads_apply, happly]
    exact ⟨rfl, hs₂⟩
  | .binary hassign hlogic hbound hleft hright, hs => by
    obtain ⟨b, hlookup, hsignature⟩ := hs.agree.operator hbound
    rw [eval_operation hassign hlogic, leads_bind, leads_operator hlookup]
    refine (leads_of_hasType hleft hs).bind ?_
    intro v s₁ ⟨hv, hs₁⟩
    refine (leads_of_hasType hright hs₁).bind ?_
    intro w s₂ ⟨hw, hs₂⟩
    exact leads_apply_ofType hsignature (.cons hv (.cons hw .nil)) hs₂
  | .ifThen hcondition hthen, hs => by
    rw [eval]
    refine (leads_of_hasType hcondition hs).bind ?_
    intro v s₁ ⟨hv, hs₁⟩
    obtain ⟨holds, rfl⟩ := hv.bool_inv
    rw [leads_bind, leads_asBool]
    split
    · exact (leads_of_hasType hthen hs₁).bind fun _ s₂ ⟨_, hs₂⟩ => ⟨rfl, hs₂⟩
    · exact ⟨rfl, hs₁⟩
  | .ifElse hcondition hthen helse, hs => by
    rw [eval]
    refine (leads_of_hasType hcondition hs).bind ?_
    intro v s₁ ⟨hv, hs₁⟩
    obtain ⟨holds, rfl⟩ := hv.bool_inv
    rw [leads_bind, leads_asBool]
    split
    · exact leads_of_hasType hthen hs₁
    · exact leads_of_hasType helse hs₁
  | .call hfunction harguments, hs => by
    rw [eval]
    refine (leads_of_hasType hfunction hs).bind ?_
    intro f s₁ ⟨hf, hs₁⟩
    obtain ⟨b, rfl, -, hsignature⟩ := hf.func_inv
    rw [leads_bind, leads_asBuiltin]
    refine (leads_of_haveTypes harguments hs₁).bind ?_
    intro vs s₂ ⟨hvs, hs₂⟩
    exact leads_apply_ofType hsignature hvs hs₂
  | .block hbody, hs => by
    rw [eval, leads_inScope]
    have hpush : s.push.Sound _ limited := ⟨hs.agree.push, hs.room⟩
    exact leads_of_bodyHasType hbody rfl hpush (Nat.succ_pos _)

/-- Arguments that have types lead to values of these types, or to an excused error. -/
theorem leads_of_haveTypes {Γ : Scopes Ty} {es : List Expr} {types : List Ty} {s : State} :
    Typing.HaveTypes Γ es types → s.Sound Γ limited →
      Leads (evalArguments es) s
        (fun vs s' => List.Forall₂ Value.OfType vs types ∧ s'.Sound Γ limited)
        fun e _ => Excused limited e
  | .nil, hs => ⟨.nil, hs⟩
  | .cons hfirst hrest, hs => by
    rw [evalArguments]
    refine (leads_of_hasType hfirst hs).bind ?_
    intro v s₁ ⟨hv, hs₁⟩
    refine (leads_of_haveTypes hrest hs₁).bind ?_
    intro vs s₂ ⟨hvs, hs₂⟩
    exact ⟨.cons hv hvs, hs₂⟩

/-- Statements leave the scope around them in agreement; what they declare is forgotten. -/
theorem leads_of_bodyHasType {Γ : Scopes Ty} {es : List Expr} {v : Value} {last ty : Ty}
    {s : State} :
    Typing.BodyHasType Γ last es ty → v.OfType last → s.Sound Γ limited → 0 < Γ.depth →
      Leads (evalStatements v es) s (fun v s' => v.OfType ty ∧ s'.pop.Sound Γ.pop limited)
        fun e _ => Excused limited e
  | .nil, hv, hs, hdepth => ⟨hv, hs.agree.pop hdepth, hs.room⟩
  | @Typing.BodyHasType.declare _ _ _ n _ _ ty' _ hname hvalue hrest, _, hs, hdepth => by
    rw [evalStatements, eval, leads_bind]
    refine (leads_of_hasType hvalue hs).bind ?_
    intro v s₁ ⟨hv, hs₁⟩
    have hinner : 0 < (Γ.define n ty').depth := by
      rw [Scopes.depth_define]
      exact hdepth
    -- what is declared goes with the scope
    rw [leads_bind, leads_define, leads_pure, ← Scopes.pop_define hdepth]
    exact leads_of_bodyHasType hrest hv ⟨hs₁.agree.define hname hv, hs₁.room⟩ hinner
  | .run hfirst hrest, _, hs, hdepth => by
    rw [evalStatements]
    refine (leads_of_hasType hfirst hs).bind ?_
    intro v s₁ ⟨hv, hs₁⟩
    exact leads_of_bodyHasType hrest hv hs₁ hdepth

end

/-! ## Whole programs -/

/-- The two chains that a program starts with are sound for each other. -/
theorem sound_start (out : Output) :
    (State.mk rootScopes out).Sound Typing.rootScopes out.room.isSome :=
  ⟨Agree.root, rfl⟩

/-- A program that passes the check gives a value of its type, or divides by zero, or has no more
    room for its output. -/
theorem interpret_of_typeOf {source : String} {tree : Expr} {ty : Ty}
    (hread : readProgram source = .ok (some tree)) (htype : Typing.typeOf tree = .ok ty)
    (out : Output) :
    (∃ v, (interpret tree out).1 = .ok v ∧ v.OfType ty) ∨
      ∃ cause loc, (interpret tree out).1 = .error (.fault cause loc) ∧
        (cause = .divisionByZero ∨ cause = .outputClosed ∧ out.room.isSome = true) := by
  have h := leads_of_hasType (Typing.hasType_of_typeOf hread htype) (sound_start out)
  unfold Leads at h
  unfold interpret
  rcases heval : eval tree ⟨rootScopes, out⟩ with ⟨v, s⟩ | ⟨e, s⟩ <;> rw [heval] at h
  · exact .inl ⟨v, rfl, h.1⟩
  · obtain ⟨cause, loc, rfl, hcause⟩ := h
    exact .inr ⟨cause, loc, rfl, hcause⟩

/-- A division by zero passes the check. -/
theorem interpret_of_typeOf_division :
    ∃ tree, readProgram "1 / 0" = .ok (some tree) ∧ Typing.typeOf tree = .ok .int ∧
      ((∃ v, (interpret tree {}).1 = .ok v ∧ v.OfType .int) ∨
        ∃ cause loc, (interpret tree {}).1 = .error (.fault cause loc) ∧
          (cause = .divisionByZero ∨
            cause = .outputClosed ∧ ({} : Output).room.isSome = true)) := by
  have hread : readProgram "1 / 0" = .ok (some (.binary (.known ⟨1, 3⟩) "/"
      (.int (.known ⟨1, 1⟩) 1) (.int (.known ⟨1, 5⟩) 0))) := by cbv
  have htype : Typing.typeOf (.binary (.known ⟨1, 3⟩) "/" (.int (.known ⟨1, 1⟩) 1)
      (.int (.known ⟨1, 5⟩) 0)) = .ok .int := rfl
  exact ⟨_, hread, htype, interpret_of_typeOf hread htype {}⟩

end Eval

end ExprLang
