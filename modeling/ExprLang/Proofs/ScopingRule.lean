/-
  THE SCOPING RULE: one rule of scope for checking, evaluating and lowering.

  Which names a program takes from its surroundings is read off its tree (`Expr.freeUses`).  Each
  of the three passes finds them in a chain of scopes of its own, and each of them asks its
  surroundings for these names only.  Lowering visits every part of a tree, so it succeeds exactly
  when all of them are reserved; the other two may stop for another reason first.
-/
import ExprLang.Proofs.AskedNames
import ExprLang.Proofs.RelabeledPasses
import ExprLang.Proofs.TypeSoundness

namespace ExprLang

variable {names : String → Prop} {known : String → Prop} {declared : List String}

/-! ## Lowering -/

namespace Lowering

open ExprLang.Expr Pass

/-- Lowering, as far as names are concerned. -/
def pass : Pass LoweringError Draft Var where
  scopes d := d.scopes
  undefined?
    | .undefinedName n _ => some n
    | .notAssignable _ => none
  thorough := True

/-- A lookup asks for the name that is used. -/
theorem asks_lookup (use : Use) (loc : Location) :
    pass.Asks known Scopes.SameNames declared (use.outside declared) (lookup use.name loc) := by
  refine asks_use (e := .undefinedName use.name loc) (fun d hd => ?_) (fun d hd => ?_) rfl
  · obtain ⟨x, hx⟩ := Option.isSome_iff_exists.1 hd
    exact ⟨x, d, lookup_eq_ok.2 ⟨hx, rfl⟩, .refl _⟩
  · have hnone : d.scopes.lookup use.name = none := by simpa [Scopes.contains, pass] using hd
    simp only [lookup, hnone]

/-- Writing an instruction asks for no name. -/
theorem asks_emit (action : Action) (loc : Location) :
    pass.Asks known Scopes.SameNames declared [] (emit action loc) :=
  asks_still fun _ => ⟨(), _, rfl, rfl⟩

/-- A variable is taken without asking for a name. -/
theorem asks_mint : pass.Asks known Scopes.SameNames declared [] mint :=
  asks_still fun _ => ⟨_, _, rfl, rfl⟩

/-- A label is taken without asking for a name. -/
theorem asks_mintLabel (stem : String) :
    pass.Asks known Scopes.SameNames declared [] (mintLabel stem) :=
  asks_still fun _ => ⟨_, _, rfl, rfl⟩

/-- A call asks for no name: its callee and its arguments are variables by then. -/
theorem asks_call (callee : Var) (xs : List Var) (loc : Location) :
    pass.Asks known Scopes.SameNames declared [] (call callee xs loc) :=
  asks_still fun _ => ⟨_, _, rfl, rfl⟩

/-- Copying an operand aside asks for no name. -/
theorem asks_settle (x : Var) (overwritten : Bool) (loc : Location) :
    pass.Asks known Scopes.SameNames declared [] (settle x overwritten loc) := by
  refine asks_still fun d => ?_
  by_cases hcopy : x ∈ d.declared ∧ overwritten = true
  · exact ⟨_, _, settle_eq_ok.2 (.copy hcopy.1 hcopy.2), rfl⟩
  · exact ⟨_, _, settle_eq_ok.2 (.keep hcopy), rfl⟩

/-- Joining the ways through a logical operator asks for no name. -/
theorem asks_mergeLogic (decided : Bool) (loc : Location) (y result : Var) (l l' : Label) :
    pass.Asks known Scopes.SameNames declared [] (mergeLogic decided loc y result l l') :=
  asks_still fun _ => ⟨_, _, rfl, rfl⟩

mutual

/-- Lowering a tree asks for its free names, all of them. -/
theorem asks_lower : (e : Expr) → {pos : Place} → e.Fits names pos → (declared : List String) →
    pass.Asks known (ChangedBy e) declared (e.freeUses declared) (lower e)
  | .int loc n, _, _, _ => asks_mint.andThen fun _ => (asks_emit _ loc).andThen fun _ =>
      asks_pure _
  | .bool loc b, _, _, _ => asks_mint.andThen fun _ => (asks_emit _ loc).andThen fun _ =>
      asks_pure _
  | .unit _, _, _, _ => asks_pure _
  | .name loc n, _, _, _ => asks_lookup (.read n) loc
  | .unary loc op operand, _, h, declared => by
    rw [lower, freeUses]
    refine (asks_lookup (.operator (unaryName op)) loc).bind fun callee => ?_
    refine ((asks_lower operand h.2 declared).value h.2).ending fun v => ?_
    exact asks_call callee [v] loc
  | .binary loc op left right, _, h, declared => by
    rcases h.binary_cases with ⟨rfl, nameLoc, n, rfl⟩ | ⟨hassign, -⟩
    · rw [lower_assign, freeUses_assign]
      refine (asks_lookup (.write n) nameLoc).bind fun cell => ?_
      refine ((asks_lower right h.2.2 declared).value h.2.2).ending fun v => ?_
      exact (asks_emit _ loc).andThen fun _ => asks_pure cell
    · by_cases hlogic : op = "and" ∨ op = "or"
      · rw [lower_logic hlogic, freeUses_logic hlogic]
        refine ((asks_lower left h.2.1 declared).value h.2.1).bind fun v => ?_
        refine (asks_mintLabel _).andThen fun rightLabel => ?_
        refine (asks_mintLabel _).andThen fun skipLabel => ?_
        refine (asks_mintLabel _).andThen fun endLabel => ?_
        refine (asks_emit _ loc).andThen fun _ => asks_mint.andThen fun result => ?_
        refine (asks_emit _ loc).andThen fun _ => ?_
        refine ((asks_lower right h.2.2 declared).value h.2.2).ending fun w => ?_
        exact asks_mergeLogic _ loc w result skipLabel endLabel
      · rw [lower_operation hassign hlogic, freeUses_operation hassign hlogic]
        refine (asks_lookup (.operator op) loc).bind fun callee => ?_
        refine ((asks_lower left h.2.1 declared).value h.2.1).bind fun v => ?_
        refine (asks_settle v _ _).andThen fun v' => ?_
        refine ((asks_lower right h.2.2 declared).value h.2.2).ending fun w => ?_
        exact asks_call callee [v', w] loc
  | .ifThen loc condition thenBranch, _, h, declared => by
    rw [lower, freeUses]
    refine ((asks_lower condition h.1 declared).value h.1).bind fun v => ?_
    refine (asks_mintLabel _).andThen fun thenLabel => (asks_mintLabel _).andThen fun endLabel => ?_
    refine (asks_emit _ loc).andThen fun _ => (asks_emit _ loc).andThen fun _ => ?_
    refine ((asks_lower thenBranch h.2 declared).value h.2).ending fun _ => ?_
    exact (asks_emit _ loc).andThen fun _ => asks_pure _
  | .ifElse loc condition thenBranch elseBranch, _, h, declared => by
    rw [lower, freeUses, List.append_assoc]
    refine ((asks_lower condition h.1 declared).value h.1).bind fun v => ?_
    refine (asks_mintLabel _).andThen fun thenLabel => ?_
    refine (asks_mintLabel _).andThen fun elseLabel => ?_
    refine (asks_mintLabel _).andThen fun endLabel => ?_
    refine (asks_emit _ loc).andThen fun _ => (asks_emit _ loc).andThen fun _ => ?_
    refine ((asks_lower thenBranch h.2.1 declared).value h.2.1).bind fun thenVar => ?_
    -- with or without a value to merge, the other branch comes next
    have helse : pass.Asks known Scopes.SameNames declared _ (lower elseBranch) :=
      (asks_lower elseBranch h.2.2 declared).value h.2.2
    refine .ite ?_ ?_
    · refine (asks_emit _ loc).andThen fun _ => (asks_emit _ loc).andThen fun _ => ?_
      refine helse.ending fun _ => ?_
      exact (asks_emit _ loc).andThen fun _ => asks_pure _
    · refine asks_mint.andThen fun result => (asks_emit _ loc).andThen fun _ => ?_
      refine (asks_emit _ loc).andThen fun _ => (asks_emit _ loc).andThen fun _ => ?_
      refine helse.ending fun elseVar => ?_
      exact (asks_emit _ loc).andThen fun _ => (asks_emit _ loc).andThen fun _ => asks_pure _
  | .call loc function arguments, _, h, declared => by
    rw [lower, freeUses]
    refine ((asks_lower function h.2.1 declared).value h.2.1).bind fun callee => ?_
    refine (asks_settle callee _ _).andThen fun callee' => ?_
    exact (asks_lowerArguments arguments h.2.2 declared).ending fun xs => asks_call callee' xs loc
  | .var loc n value, _, h, declared => by
    rw [lower, freeUses]
    refine ((asks_lower value h.2.2 declared).value h.2.2).defining fun v d => ?_
    exact ⟨_, _, _, rfl, rfl⟩
  | .block loc statements, _, h, declared => by
    rw [lower, freeUses]
    exact (asks_lowerStatements statements h declared .unit).within (fun _ => rfl) fun _ => rfl

/-- Lowering operands. -/
theorem asks_lowerArguments : (es : List Expr) → FitAll names es → (declared : List String) →
    pass.Asks known Scopes.SameNames declared (freeUsesAll declared es) (lowerArguments es)
  | [], _, _ => asks_pure _
  | e :: rest, h, declared => by
    rw [lowerArguments, freeUsesAll]
    refine ((asks_lower e h.1 declared).value h.1).bind fun v => ?_
    refine (asks_settle v _ _).andThen fun v' => ?_
    exact (asks_lowerArguments rest h.2 declared).ending fun vs => asks_pure _

/-- Lowering statements. -/
theorem asks_lowerStatements : (es : List Expr) → {pos : Place} → FitBody names pos es →
    (declared : List String) → (last : Var) →
    pass.Asks known Scopes.SameAround declared (freeUsesBody declared es) (lowerStatements last es)
  | [], _, _, _, last => (asks_pure last).mono_change fun _ _ hsame => hsame.around
  | e :: rest, _, h, declared, last => by
    rw [lowerStatements]
    exact (asks_lower e h.1 declared).statement fun declared' v =>
      asks_lowerStatements rest h.2 declared' v

end

end Lowering

/-! ## Checking -/

namespace Typing

open ExprLang.Expr Pass

/-- Checking, as far as names are concerned. -/
def pass : Pass TypeError (Scopes Ty) Ty where
  scopes Γ := Γ
  undefined?
    | .undefinedName n _ => some n
    | _ => none
  thorough := False

/-- The checker asks for the name that is used. -/
theorem asks_lookup (use : Use) (loc : Location) :
    pass.Asks known Scopes.SameNames declared (use.outside declared) (lookup use.name loc) := by
  refine asks_use (e := .undefinedName use.name loc) (fun Γ hΓ => ?_) (fun Γ hΓ => ?_) rfl
  · obtain ⟨ty, hty⟩ := Option.isSome_iff_exists.1 hΓ
    exact ⟨ty, Γ, lookup_eq_ok.2 ⟨hty, rfl⟩, .refl _⟩
  · have hnone : Scopes.lookup use.name Γ = none := by simpa [Scopes.contains, pass] using hΓ
    simp only [lookup, hnone]

/-- The errors of the checker other than undefined names. -/
theorem asks_refusal {α : Type} {change : Scopes Ty → Scopes Ty → Prop} {uses : List Use}
    {e : TypeError} (he : pass.undefined? e = none) :
    pass.Asks known change declared uses (throw e : Check α) := asks_throw id he

/-- Comparing two types asks for no name. -/
theorem asks_expect (role : Role) (expected found : Ty) (loc : Location) :
    pass.Asks known Scopes.SameNames declared [] (expect role expected found loc) :=
  .ite (asks_pure _) (asks_refusal rfl)

/-- The checker asks for the name under which an operator is known. -/
theorem asks_operatorType (op : String) (loc : Location) :
    pass.Asks known Scopes.SameNames declared (Use.outside declared (.operator op))
      (operatorType op loc) := by
  refine (asks_lookup (.operator op) loc).ending fun found => ?_
  cases found with
  | func params result => exact asks_pure _
  | _ => exact asks_refusal rfl

mutual

/-- Checking a tree asks for its free names; `and` and `or` have their types from around it. -/
theorem asks_check (hand : known "and") (hor : known "or") : (e : Expr) → {pos : Place} →
    e.Fits names pos → (declared : List String) →
    pass.Asks known (ChangedBy e) declared (e.freeUses declared) (check e)
  | .int loc n, _, _, _ => asks_pure _
  | .bool loc b, _, _, _ => asks_pure _
  | .unit _, _, _, _ => asks_pure _
  | .name loc n, _, _, _ => asks_lookup (.read n) loc
  | .unary loc op operand, _, h, declared => by
    rw [check, freeUses]
    refine .swap (((asks_check hand hor operand h.2 declared).value h.2).bind
      fun operandType => ?_)
    refine (asks_operatorType (unaryName op) loc).ending fun ⟨params, result⟩ => ?_
    match params with
    | [param] => exact (asks_expect _ _ _ _).andThen fun _ => asks_pure _
    | [] | _ :: _ :: _ => exact asks_refusal rfl
  | .binary loc op left right, _, h, declared => by
    rcases h.binary_cases with ⟨rfl, nameLoc, n, rfl⟩ | ⟨hassign, -⟩
    · rw [check_assign, freeUses_assign]
      refine (asks_lookup (.write n) nameLoc).bind fun variableType => ?_
      refine ((asks_check hand hor right h.2.2 declared).value h.2.2).ending fun valueType => ?_
      exact (asks_expect _ _ _ _).andThen fun _ => asks_pure _
    · have hleft := (asks_check hand hor left h.2.1 declared).value h.2.1
      have hright := (asks_check hand hor right h.2.2 declared).value h.2.2
      -- behind both sides nothing more is asked for, whatever their types
      have hsignature : ∀ leftType rightType (signature : List Ty × Ty),
          pass.Asks known Scopes.SameNames declared [] (match signature with
            | ([leftParam, rightParam], result) => do
              expect (.leftOperand op) leftParam leftType left.location
              expect (.rightOperand op) rightParam rightType right.location
              pure result
            | (params, _) => throw (.arityMismatch op params.length 2 loc) : Check Ty) := by
        rintro leftType rightType ⟨params, result⟩
        match params with
        | [leftParam, rightParam] =>
          exact (asks_expect _ _ _ _).andThen fun _ => (asks_expect _ _ _ _).andThen fun _ =>
            asks_pure _
        | [] | [_] | _ :: _ :: _ :: _ => exact asks_refusal rfl
      have hcompared : ∀ leftType rightType : Ty,
          pass.Asks known Scopes.SameNames declared []
            (if leftType = rightType then pure .bool
              else throw (.unequalOperands op leftType rightType loc) : Check Ty) :=
        fun _ _ => .ite (asks_pure _) (asks_refusal rfl)
      rw [check_operation hassign]
      -- `and` and `or` are no uses: what the checker looks up there is known around the program
      by_cases hlogic : op = "and" ∨ op = "or"
      · rw [freeUses_logic hlogic]
        refine hleft.bind fun leftType => hright.ending fun rightType =>
          .ite (hcompared _ _) (Asks.andThen ?_ (hsignature _ _))
        refine (asks_operatorType op loc).of_known ?_
        rcases hlogic with rfl | rfl
        · exact hand
        · exact hor
      · rw [freeUses_operation hassign hlogic]
        refine .swap ?_
        rw [List.append_assoc]
        refine hleft.bind fun leftType => hright.bind fun rightType => .ite ?_ ?_
        · exact (hcompared leftType rightType).mono (List.nil_subset _) fun h => h.elim
        · exact (asks_operatorType op loc).ending (hsignature _ _)
  | .ifThen loc condition thenBranch, _, h, declared => by
    rw [check, freeUses]
    refine ((asks_check hand hor condition h.1 declared).value h.1).bind fun conditionType => ?_
    refine (asks_expect _ _ _ _).andThen fun _ => ?_
    refine ((asks_check hand hor thenBranch h.2 declared).value h.2).ending fun thenType => ?_
    exact (asks_expect _ _ _ _).andThen fun _ => asks_pure _
  | .ifElse loc condition thenBranch elseBranch, _, h, declared => by
    rw [check, freeUses, List.append_assoc]
    refine ((asks_check hand hor condition h.1 declared).value h.1).bind fun conditionType => ?_
    refine (asks_expect _ _ _ _).andThen fun _ => ?_
    refine ((asks_check hand hor thenBranch h.2.1 declared).value h.2.1).bind fun thenType => ?_
    refine ((asks_check hand hor elseBranch h.2.2 declared).value h.2.2).ending fun elseType => ?_
    exact .ite (asks_pure _) (asks_refusal rfl)
  | .call loc function arguments, _, h, declared => by
    rw [check, freeUses]
    refine ((asks_check hand hor function h.2.1 declared).value h.2.1).bind fun found => ?_
    cases found with
    | func params result =>
      refine .ite ?_ ?_
      · exact (asks_checkArguments hand hor arguments h.2.2 declared _ _ params).ending
          fun _ => asks_pure _
      · exact asks_refusal rfl
    | _ => exact asks_refusal rfl
  | .var loc n value, _, h, declared => by
    rw [check, freeUses]
    refine ((asks_check hand hor value h.2.2 declared).value h.2.2).defining fun ty Γ => ?_
    exact ⟨_, _, _, rfl, rfl⟩
  | .block loc statements, _, h, declared => by
    rw [check, freeUses]
    exact (asks_checkStatements hand hor statements h declared .unit).within (fun _ => rfl)
      fun _ => rfl

/-- Checking arguments. -/
theorem asks_checkArguments (hand : known "and") (hor : known "or") : (es : List Expr) →
    FitAll names es → (declared : List String) → (function : String) → (number : Nat) →
    (params : List Ty) →
    pass.Asks known Scopes.SameNames declared (freeUsesAll declared es)
      (checkArguments function number params es)
  | [], _, _, _, _, params => by cases params <;> exact asks_pure _
  | e :: rest, _, _, _, _, [] => (asks_pure _).mono (List.nil_subset _) fun h => h.elim
  | e :: rest, h, declared, function, number, param :: params => by
    rw [checkArguments, freeUsesAll]
    refine ((asks_check hand hor e h.1 declared).value h.1).bind fun found => ?_
    refine (asks_expect _ _ _ _).andThen fun _ => ?_
    exact asks_checkArguments hand hor rest h.2 declared function (number + 1) params

/-- Checking statements. -/
theorem asks_checkStatements (hand : known "and") (hor : known "or") : (es : List Expr) →
    {pos : Place} → FitBody names pos es → (declared : List String) → (last : Ty) →
    pass.Asks known Scopes.SameAround declared (freeUsesBody declared es) (checkStatements last es)
  | [], _, _, _, last => (asks_pure last).mono_change fun _ _ hsame => hsame.around
  | e :: rest, _, h, declared, last => by
    rw [checkStatements]
    exact (asks_check hand hor e h.1 declared).statement fun declared' ty =>
      asks_checkStatements hand hor rest h.2 declared' ty

end

end Typing

/-! ## Evaluating -/

namespace Eval

open ExprLang.Expr Pass

/-- Evaluating, as far as names are concerned. -/
def pass : Pass RuntimeError State Value where
  scopes s := s.scopes
  undefined?
    | .undefinedName n _ => some n
    | _ => none
  thorough := False

/-- The interpreter asks for the name that is used. -/
theorem asks_lookup (use : Use) (loc : Location) :
    pass.Asks known Scopes.SameNames declared (use.outside declared) (lookup use.name loc) := by
  refine asks_use (e := .undefinedName use.name loc) (fun s hs => ?_) (fun s hs => ?_) rfl
  · obtain ⟨v, hv⟩ := Option.isSome_iff_exists.1 hs
    have hsome : s.scopes.lookup use.name = some v := hv
    exact ⟨v, s, by simp only [lookup, hsome], .refl _⟩
  · have hnone : s.scopes.lookup use.name = none := by simpa [Scopes.contains, pass] using hs
    simp only [lookup, hnone]

/-- An assignment asks for its target, and binds nothing new. -/
theorem asks_assign (n : String) (v : Value) (loc : Location) :
    pass.Asks known Scopes.SameNames declared (Use.outside declared (.write n))
      (assign n v loc) := by
  refine asks_use (e := .undefinedName n loc) (fun s hs => ?_) (fun s hs => ?_) rfl
  · have hbound : s.scopes.contains n = true := hs
    refine ⟨(), { s with scopes := s.scopes.modify n fun _ => v }, ?_, .modify _ _ _⟩
    simp only [assign, Scopes.assign?, hbound, if_true]
  · have hunbound : s.scopes.contains n = false := hs
    simp [assign, Scopes.assign?, hunbound]

/-- The errors of the evaluator other than undefined names. -/
theorem asks_refusal {α : Type} {change : Scopes Value → Scopes Value → Prop} {uses : List Use}
    {e : RuntimeError} (he : pass.undefined? e = none) :
    pass.Asks known change declared uses (throw e : Run α) := asks_throw id he

theorem asks_asBuiltin (v : Value) (loc : Location) :
    pass.Asks known Scopes.SameNames declared [] (asBuiltin v loc) := by
  cases v with
  | builtin b => exact asks_pure b
  | _ => exact asks_refusal rfl

theorem asks_asBool (v : Value) (loc : Location) :
    pass.Asks known Scopes.SameNames declared [] (asBool v loc) := by
  cases v with
  | bool b => exact asks_pure b
  | _ => exact asks_refusal rfl

/-- The interpreter asks for the name under which an operator is known. -/
theorem asks_operator (op : String) (loc : Location) :
    pass.Asks known Scopes.SameNames declared (Use.outside declared (.operator op))
      (operator op loc) :=
  (asks_lookup (.operator op) loc).ending fun v => asks_asBuiltin v loc

/-- A builtin at work asks for no name. -/
theorem asks_apply (b : Builtin) (args : List Value) (loc : Location) :
    pass.Asks known Scopes.SameNames declared [] (apply b args loc) := by
  intro s hs
  rw [leads_apply]
  rcases b.apply args s.output with cause | ⟨v, output⟩
  · exact ⟨False.elim, fun n hn => by simp [pass] at hn⟩
  · exact ⟨.refl _, False.elim⟩

mutual

/-- Evaluating a tree asks for its free names, as far as it is evaluated. -/
theorem asks_eval : (e : Expr) → {pos : Place} → e.Fits names pos → (declared : List String) →
    pass.Asks known (ChangedBy e) declared (e.freeUses declared) (eval e)
  | .int loc n, _, _, _ => asks_pure _
  | .bool loc b, _, _, _ => asks_pure _
  | .unit _, _, _, _ => asks_pure _
  | .name loc n, _, _, _ => asks_lookup (.read n) loc
  | .unary loc op operand, _, h, declared => by
    rw [eval, freeUses]
    refine (asks_operator (unaryName op) loc).bind fun b => ?_
    exact ((asks_eval operand h.2 declared).value h.2).ending fun v => asks_apply b [v] loc
  | .binary loc op left right, _, h, declared => by
    rcases h.binary_cases with ⟨rfl, nameLoc, n, rfl⟩ | ⟨hassign, -⟩
    · rw [eval_assign, freeUses_assign]
      refine .swap (((asks_eval right h.2.2 declared).value h.2.2).bind fun v => ?_)
      exact (asks_assign n v nameLoc).ending fun _ => asks_pure v
    · have hleft := (asks_eval left h.2.1 declared).value h.2.1
      have hright := (asks_eval right h.2.2 declared).value h.2.2
      by_cases hlogic : op = "and" ∨ op = "or"
      · rw [eval_logic hlogic, freeUses_logic hlogic]
        refine hleft.bind fun v => (asks_asBool v _).andThen fun decided => .ite ?_ ?_
        · -- the right side is not evaluated
          exact (asks_pure _).mono (List.nil_subset _) False.elim
        · exact hright.ending fun w => (asks_asBool w _).andThen fun _ => asks_pure _
      · rw [eval_operation hassign hlogic, freeUses_operation hassign hlogic]
        refine (asks_operator op loc).bind fun b => hleft.bind fun v => hright.ending fun w => ?_
        exact asks_apply b [v, w] loc
  | .ifThen loc condition thenBranch, _, h, declared => by
    rw [eval, freeUses]
    refine ((asks_eval condition h.1 declared).value h.1).bind fun v => ?_
    refine (asks_asBool v _).andThen fun holds => .ite ?_ ?_
    · exact ((asks_eval thenBranch h.2 declared).value h.2).ending fun _ => asks_pure _
    · exact (asks_pure _).mono (List.nil_subset _) False.elim
  | .ifElse loc condition thenBranch elseBranch, _, h, declared => by
    rw [eval, freeUses, List.append_assoc]
    refine ((asks_eval condition h.1 declared).value h.1).bind fun v => ?_
    refine (asks_asBool v _).andThen fun holds => .ite ?_ ?_
    · exact ((asks_eval thenBranch h.2.1 declared).value h.2.1).mono
        (List.subset_append_left _ _) False.elim
    · exact ((asks_eval elseBranch h.2.2 declared).value h.2.2).mono
        (List.subset_append_right _ _) False.elim
  | .call loc function arguments, _, h, declared => by
    rw [eval, freeUses]
    refine ((asks_eval function h.2.1 declared).value h.2.1).bind fun f => ?_
    refine (asks_asBuiltin f _).andThen fun b => ?_
    exact (asks_evalArguments arguments h.2.2 declared).ending fun args => asks_apply b args loc
  | .var loc n value, _, h, declared => by
    rw [eval, freeUses]
    refine ((asks_eval value h.2.2 declared).value h.2.2).defining fun v s => ?_
    exact ⟨_, _, _, rfl, rfl⟩
  | .block loc statements, _, h, declared => by
    rw [eval, freeUses]
    exact (asks_evalStatements statements h declared .unit).within (fun _ => rfl) fun _ => rfl

/-- Evaluating arguments. -/
theorem asks_evalArguments : (es : List Expr) → FitAll names es → (declared : List String) →
    pass.Asks known Scopes.SameNames declared (freeUsesAll declared es) (evalArguments es)
  | [], _, _ => asks_pure _
  | e :: rest, h, declared => by
    rw [evalArguments, freeUsesAll]
    refine ((asks_eval e h.1 declared).value h.1).bind fun v => ?_
    exact (asks_evalArguments rest h.2 declared).ending fun vs => asks_pure _

/-- Evaluating statements. -/
theorem asks_evalStatements : (es : List Expr) → {pos : Place} → FitBody names pos es →
    (declared : List String) → (last : Value) →
    pass.Asks known Scopes.SameAround declared (freeUsesBody declared es) (evalStatements last es)
  | [], _, _, _, last => (asks_pure last).mono_change fun _ _ hsame => hsame.around
  | e :: rest, _, h, declared, last => by
    rw [evalStatements]
    exact (asks_eval e h.1 declared).statement fun declared' v =>
      asks_evalStatements rest h.2 declared' v

end

end Eval

/-! ## Whole programs -/

section

variable {e : Expr} {ty : Ty}

/-- A program asks for the names that are free in it, and for the function that prints its value. -/
theorem Lowering.asks_lowerProgram (h : e.Fits names .value) (ty : Ty) :
    Lowering.pass.Asks known Scopes.SameNames []
      (e.freeUses [] ++ (printer? ty).toList.map Use.read) (lowerProgram e ty) := by
  refine ((asks_lower e h []).value h).bind fun v => ?_
  cases printer? ty with
  | none => exact Pass.asks_pure ()
  | some name =>
    refine (asks_lookup (.read name) e.location).ending fun callee => ?_
    exact (asks_call callee [v] e.location).andThen fun _ => Pass.asks_pure ()

/-- The reserved names are those that code is lowered with. -/
theorem Lowering.knows_start (reserved : List String) :
    (Draft.start reserved).scopes.Knows (· ∈ reserved) [] := by
  intro n
  have hroot : (Draft.start reserved).scopes.depth = 0 := Scopes.depth_ofList _
  rw [Scopes.contains, Scopes.lookup_of_depth_eq_zero hroot, Option.isSome_iff_exists]
  simp only [List.not_mem_nil, false_or]
  constructor
  · rintro ⟨x, hx⟩
    exact (Draft.binding_start.1 hx).2.1
  · intro hn
    exact ⟨⟨n⟩, Draft.binding_start.2 ⟨rfl, hn, rfl⟩⟩

/-- To begin with the checker knows the builtins that have a type. -/
theorem Typing.knows_rootScopes :
    rootScopes.Knows (fun n => ∃ b : Builtin, b.name = n ∧ b.signature? ≠ none) [] := by
  intro n
  rw [Scopes.contains, Option.isSome_iff_exists]
  simp only [List.not_mem_nil, false_or, lookup_rootScopes, Option.ne_none_iff_exists']
  constructor
  · rintro ⟨ty, b, hb, hty⟩
    exact ⟨b, hb, ty, hty⟩
  · rintro ⟨b, hb, ty, hty⟩
    exact ⟨ty, b, hb, hty⟩

/-- To begin with the interpreter knows all builtins. -/
theorem Eval.knows_rootScopes :
    rootScopes.Knows (fun n => ∃ b : Builtin, b.name = n) [] := by
  intro n
  rw [Scopes.contains, Option.isSome_iff_exists]
  simp only [List.not_mem_nil, false_or, lookup_rootScopes]
  constructor
  · rintro ⟨v, b, hb, -⟩
    exact ⟨b, hb⟩
  · rintro ⟨b, hb⟩
    exact ⟨.builtin b, b, hb, rfl⟩

/-- A program has code exactly when the names that it takes from its surroundings are reserved; it
    lacks it for want of a name only. -/
theorem Lowering.generate_ok_iff (h : e.Fits names .value) (reserved : List String) (ty : Ty) :
    ((∃ code, generate reserved e ty = .ok code) ↔
      (∀ n ∈ e.freeNames, n ∈ reserved) ∧ ∀ n ∈ printer? ty, n ∈ reserved) ∧
    ∀ loc, generate reserved e ty ≠ .error (.notAssignable loc) := by
  have hrun := asks_lowerProgram h ty (Draft.start reserved) (knows_start reserved)
  have hnames : (∀ u ∈ e.freeUses [] ++ (printer? ty).toList.map Use.read, u.name ∈ reserved) ↔
      (∀ n ∈ e.freeNames, n ∈ reserved) ∧ ∀ n ∈ printer? ty, n ∈ reserved := by
    simp [Expr.freeNames, or_imp, forall_and, Use.name]
  rw [← hnames]
  unfold Leads at hrun
  unfold generate
  rcases hlower : lowerProgram e ty (Draft.start reserved) with ⟨u, d⟩ | ⟨error, d⟩ <;>
    rw [hlower] at hrun
  · exact ⟨iff_of_true ⟨_, rfl⟩ (hrun.2 trivial), fun loc => by simp⟩
  · obtain ⟨hfound, hblamed⟩ := hrun
    cases error with
    | undefinedName n loc =>
      obtain ⟨⟨u, hu, rfl⟩, hunknown⟩ := hblamed n rfl
      exact ⟨iff_of_false (by simp) fun hall => hunknown (hall u hu), fun loc' => by simp⟩
    | notAssignable loc => exact absurd rfl (hfound trivial)

/-- A name that the checker misses is free, and no builtin with a type. -/
theorem Typing.undefined_of_typeOf (h : e.Fits names .value) {n : String} {loc : Location}
    (hfails : typeOf e = .error (.undefinedName n loc)) :
    n ∈ e.freeNames ∧ ∀ b : Builtin, b.name = n → b.signature? = none := by
  have hrun := (asks_check ⟨.and, rfl, by simp [Builtin.signature?]⟩
    ⟨.or, rfl, by simp [Builtin.signature?]⟩ e h []).value h rootScopes knows_rootScopes
  unfold Leads at hrun
  unfold typeOf at hfails
  rcases hcheck : check e rootScopes with ⟨ty, Γ⟩ | ⟨error, Γ⟩ <;> rw [hcheck] at hrun hfails
  · contradiction
  · obtain rfl := Except.error.inj hfails
    obtain ⟨hfree, hunknown⟩ := hrun.2 n rfl
    refine ⟨List.mem_map.2 hfree, fun b hb => ?_⟩
    exact Classical.byContradiction fun htyped => hunknown ⟨b, hb, htyped⟩

/-- A name that the evaluator misses is free, and no builtin. -/
theorem Eval.undefined_of_interpret (h : e.Fits names .value) {n : String} {loc : Location}
    {output : Output} (hfails : (interpret e output).1 = .error (.undefinedName n loc)) :
    n ∈ e.freeNames ∧ ∀ b : Builtin, b.name ≠ n := by
  have hrun := (asks_eval e h []).value h ⟨rootScopes, output⟩ knows_rootScopes
  unfold Leads at hrun
  unfold interpret at hfails
  rcases heval : eval e ⟨rootScopes, output⟩ with ⟨v, s⟩ | ⟨error, s⟩ <;> rw [heval] at hrun hfails
  · contradiction
  · obtain rfl := Except.error.inj hfails
    obtain ⟨hfree, hunknown⟩ := hrun.2 n rfl
    exact ⟨List.mem_map.2 hfree, fun b hb => hunknown ⟨b, hb⟩⟩

/-- The three passes over a parsed program go by one rule of scope.  Lowering succeeds exactly when
    the free names are reserved, and the printing function if there is something to print; a name
    that checking or evaluating misses is a free one that no builtin has. -/
theorem scoping_of_parse {tokens : List Token} (hparse : Grammar.parse tokens = .ok (some e)) :
    (∀ reserved ty,
      ((∃ code, Lowering.generate reserved e ty = .ok code) ↔
        (∀ n ∈ e.freeNames, n ∈ reserved) ∧ (ty = .int → "print_int" ∈ reserved) ∧
          (ty = .bool → "print_bool" ∈ reserved)) ∧
      ∀ loc, Lowering.generate reserved e ty ≠ .error (.notAssignable loc)) ∧
    (∀ n loc, Typing.typeOf e = .error (.undefinedName n loc) →
      n ∈ e.freeNames ∧ ∀ b : Builtin, b.name = n → b.signature? = none) ∧
    ∀ n loc output, (Eval.interpret e output).1 = .error (.undefinedName n loc) →
      n ∈ e.freeNames ∧ ∀ b : Builtin, b.name ≠ n := by
  have hfits := Grammar.fits_of_parse_any hparse
  refine ⟨fun reserved ty => ?_, fun n loc => Typing.undefined_of_typeOf hfits,
    fun n loc output => Eval.undefined_of_interpret hfits⟩
  have hprinter : (∀ n ∈ Lowering.printer? ty, n ∈ reserved) ↔
      (ty = .int → "print_int" ∈ reserved) ∧ (ty = .bool → "print_bool" ∈ reserved) := by
    cases ty <;> simp [Lowering.printer?, Builtin.name]
  rw [← hprinter]
  exact Lowering.generate_ok_iff hfits reserved ty

/-- In `{ var a = b; a }` the name `a` is declared, and `b` has to come from somewhere. -/
theorem scoping_of_parse_declared :
    ∃ e, Grammar.parse [⟨.punctuation, "\x7b", .known ⟨1, 1⟩⟩, ⟨.identifier, "var", .known ⟨1, 3⟩⟩,
        ⟨.identifier, "a", .known ⟨1, 7⟩⟩, ⟨.operator, "=", .known ⟨1, 9⟩⟩,
        ⟨.identifier, "b", .known ⟨1, 11⟩⟩, ⟨.punctuation, ";", .known ⟨1, 12⟩⟩,
        ⟨.identifier, "a", .known ⟨1, 14⟩⟩, ⟨.punctuation, "\x7d", .known ⟨1, 16⟩⟩]
          = .ok (some e) ∧
      e.freeNames = ["b"] ∧
      (∃ code, Lowering.generate ["b"] e .unit = .ok code) ∧
      (¬∃ code, Lowering.generate ["a"] e .unit = .ok code) ∧
      (¬∃ code, Lowering.generate ["a", "b"] e .int = .ok code) ∧
      Typing.typeOf e = .error (.undefinedName "b" (.known ⟨1, 11⟩)) ∧
      ∀ b : Builtin, b.name ≠ "b" := by
  have hparse : Grammar.parse [⟨.punctuation, "\x7b", .known ⟨1, 1⟩⟩,
        ⟨.identifier, "var", .known ⟨1, 3⟩⟩, ⟨.identifier, "a", .known ⟨1, 7⟩⟩,
        ⟨.operator, "=", .known ⟨1, 9⟩⟩, ⟨.identifier, "b", .known ⟨1, 11⟩⟩,
        ⟨.punctuation, ";", .known ⟨1, 12⟩⟩, ⟨.identifier, "a", .known ⟨1, 14⟩⟩,
        ⟨.punctuation, "\x7d", .known ⟨1, 16⟩⟩] = .ok (some (.block (.known ⟨1, 1⟩)
          [.var (.known ⟨1, 3⟩) "a" (.name (.known ⟨1, 11⟩) "b"),
            .name (.known ⟨1, 14⟩) "a"])) := by with_unfolding_all rfl
  obtain ⟨hlower, -, heval⟩ := scoping_of_parse hparse
  have hfree : (Expr.block (.known ⟨1, 1⟩) [.var (.known ⟨1, 3⟩) "a" (.name (.known ⟨1, 11⟩) "b"),
      .name (.known ⟨1, 14⟩) "a"]).freeNames = ["b"] := by decide
  refine ⟨_, hparse, hfree, (hlower ["b"] .unit).1.2 ?_, fun hcode => ?_, fun hcode => ?_, rfl, ?_⟩
  · simp [hfree]
  · have hreserved := ((hlower ["a"] .unit).1.1 hcode).1
    simp [hfree] at hreserved
  · have hprinter := ((hlower ["a", "b"] .int).1.1 hcode).2.1 rfl
    simp at hprinter
  · exact (heval "b" (.known ⟨1, 11⟩) {} rfl).2

end

end ExprLang
