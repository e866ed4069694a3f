/-
  RELABELED PASSES: the passes over a tree at other places and under other names.

  Checking, evaluating and lowering a relabeled tree does what it does to the tree itself: the
  scopes are the renamed ones, the errors the relabeled ones, and everything else is the same.
  None of the passes decides anything by a location, and all that they ask of a name is what it
  is bound to.

  Operators are names of builtins and are not renamed in a tree, so they have to be reserved.
  That is why the trees here fit the grammar.
-/
import ExprLang.Proofs.ParsedTrees
import ExprLang.Proofs.EvalSteps
import ExprLang.Proofs.LoweringRules
import ExprLang.Proofs.RenamedScopes

namespace ExprLang

variable {place : Location → Location} {r : Renaming} {names : String → Prop}

/-! ## Trees and the names in them -/

namespace Expr

/-- A tree stands where its root does. -/
@[simp] theorem location_relabel (e : Expr) :
    (e.relabel place r).location = place e.location := by
  cases e <;> rfl

/-- Relabelling neither adds nor drops an expression. -/
@[simp] theorem length_relabelAll (es : List Expr) :
    (relabelAll place r es).length = es.length := by
  rw [relabelAll_eq_map, List.length_map]

end Expr

namespace Renaming

/-- What a unary operator is called among the builtins stays. -/
theorem apply_unaryName {op : String} (h : op ∈ Grammar.unaryOperators) :
    r (Expr.unaryName op) = Expr.unaryName op := by
  have hreserved : ∀ op ∈ Grammar.unaryOperators, Expr.unaryName op ∈ reservedNames := by decide
  exact r.reserved (hreserved op h)

/-- So does a binary operator. -/
theorem apply_binary {op : String} (h : op ∈ Grammar.binaryLevels.flatten) : r op = op := by
  have hreserved : ∀ op ∈ Grammar.binaryLevels.flatten, op ∈ reservedNames := by decide
  exact r.reserved (hreserved op h)

end Renaming

/-- Under `=` there is a name; every other operator is one of the table. -/
theorem Expr.Fits.binary_cases {pos : Place} {loc : Location} {op : String} {left right : Expr}
    (h : (Expr.binary loc op left right).Fits names pos) :
    (op = "=" ∧ ∃ nameLoc n, left = .name nameLoc n) ∨
      op ≠ "=" ∧ op ∈ Grammar.binaryLevels.flatten := by
  have hequals : "=" ∉ Grammar.binaryLevels.flatten := by decide
  simp only [Expr.Fits] at h
  rcases h.1 with ⟨hop, hname⟩ | hop
  · cases left with
    | name nameLoc n => exact .inl ⟨hop, nameLoc, n, rfl⟩
    | _ => contradiction
  · exact .inr ⟨fun heq => hequals (heq ▸ hop), hop⟩

/-! ## Checking -/

namespace Typing

/-! ### The two meanings of a binary operator -/

/-- An assignment is checked by looking its variable up, not by a function. -/
theorem check_assign {loc nameLoc : Location} {n : String} {right : Expr} :
    check (.binary loc "=" (.name nameLoc n) right) = (do
      let variableType ← lookup n nameLoc
      let valueType ← check right
      expect (.assignedTo n) variableType valueType right.location
      pure valueType) := by
  rw [check, if_pos rfl]

/-- All other operators are one case for the checker, logical ones included. -/
theorem check_operation {loc : Location} {op : String} {left right : Expr} (hassign : op ≠ "=") :
    check (.binary loc op left right) = (do
      let leftType ← check left
      let rightType ← check right
      if op = "==" ∨ op = "!=" then
        if leftType = rightType then pure .bool
        else throw (.unequalOperands op leftType rightType loc)
      else
        match ← operatorType op loc with
        | ([leftParam, rightParam], result) => do
          expect (.leftOperand op) leftParam leftType left.location
          expect (.rightOperand op) rightParam rightType right.location
          pure result
        | (params, _) => throw (.arityMismatch op params.length 2 loc)) := by
  rw [check.eq_def]
  exact if_neg hassign

/-! ### Steps of the checker -/

/-- A step of the checker, and the same step for a relabeled program. -/
abbrev Alongside (place : Location → Location) (r : Renaming) {α : Type} (act act' : Check α) :
    Prop :=
  Parallel (Scopes.rename r) (TypeError.relabel place r) act act'

/-- A name finds under its new name what it found, or is unknown at the new place. -/
theorem alongside_lookup (n : String) (loc : Location) :
    Alongside place r (lookup n loc) (lookup (r n) (place loc)) := by
  intro scopes
  simp only [lookup, Scopes.lookup_rename]
  cases scopes.lookup n <;> rfl

/-- A declaration is made under the new name. -/
theorem alongside_define (n : String) (ty : Ty) :
    Alongside place r (define n ty) (define (r n) ty) :=
  fun scopes => congrArg (EStateM.Result.ok ()) (scopes.define_rename n ty)

/-- Types are compared as before, and a complaint names the renamed function. -/
theorem alongside_expect (role : Role) (expected found : Ty) (loc : Location) :
    Alongside place r (expect role expected found loc)
      (expect (role.rename r) expected found (place loc)) :=
  .ite (parallel_pure ()) (parallel_throw rfl)

/-- Operators keep their names, so they find their types. -/
theorem alongside_operatorType {op : String} (hop : r op = op) (loc : Location) :
    Alongside place r (operatorType op loc) (operatorType op (place loc)) := by
  have hlookup : Alongside place r (lookup op loc) (lookup (r op) (place loc)) :=
    alongside_lookup op loc
  rw [hop] at hlookup
  refine hlookup.bind fun found => ?_
  cases found with
  | func params result => exact parallel_pure _
  | _ => exact parallel_throw rfl

/-- A scope is entered and left on both sides. -/
theorem alongside_inScope {α : Type} {act act' : Check α} (h : Alongside place r act act') :
    Alongside place r (inScope act) (inScope act') :=
  h.within Scopes.push_rename Scopes.pop_rename

/-! ### Whole trees -/

mutual

/-- Checking a relabeled tree. -/
theorem check_relabel : (e : Expr) → {pos : Place} → e.Fits names pos →
    Alongside place r (check e) (check (e.relabel place r))
  | .int loc n, _, _ => parallel_pure _
  | .bool loc b, _, _ => parallel_pure _
  | .unit loc, _, _ => parallel_pure _
  | .name loc n, _, _ => alongside_lookup n loc
  | .unary loc op operand, _, h => by
    have hname : r (Expr.unaryName op) = Expr.unaryName op := Renaming.apply_unaryName h.1
    simp only [Expr.relabel, check, Expr.location_relabel]
    refine (check_relabel operand h.2).bind fun operandType => ?_
    refine (alongside_operatorType hname loc).bind fun ⟨params, result⟩ => ?_
    match params with
    | [param] => exact (alongside_expect _ _ _ _).bind fun _ => parallel_pure _
    | [] | _ :: _ :: _ =>
      exact parallel_throw (by simp only [TypeError.relabel, hname])
  | .binary loc op left right, _, h => by
    rcases h.binary_cases with ⟨rfl, nameLoc, n, rfl⟩ | ⟨hassign, hop⟩
    · -- the target keeps its binding under its new name
      simp only [Expr.relabel, check_assign, Expr.location_relabel]
      refine (alongside_lookup n nameLoc).bind fun variableType => ?_
      refine (check_relabel right h.2.2).bind fun valueType => ?_
      exact (alongside_expect (.assignedTo n) _ _ _).bind fun _ => parallel_pure _
    · have hname : r op = op := Renaming.apply_binary hop
      simp only [Expr.relabel, check_operation hassign, Expr.location_relabel]
      refine (check_relabel left h.2.1).bind fun leftType => ?_
      refine (check_relabel right h.2.2).bind fun rightType => .ite ?_ ?_
      · exact .ite (parallel_pure _) (parallel_throw rfl)
      · refine (alongside_operatorType hname loc).bind fun ⟨params, result⟩ => ?_
        match params with
        | [leftParam, rightParam] =>
          refine (alongside_expect (.leftOperand op) _ _ _).bind fun _ => ?_
          exact (alongside_expect (.rightOperand op) _ _ _).bind fun _ => parallel_pure _
        | [] | [_] | _ :: _ :: _ :: _ =>
          exact parallel_throw (by simp only [TypeError.relabel, hname])
  | .ifThen loc condition thenBranch, _, h => by
    simp only [Expr.relabel, check, Expr.location_relabel]
    refine (check_relabel condition h.1).bind fun conditionType => ?_
    refine (alongside_expect .condition _ _ _).bind fun _ => ?_
    refine (check_relabel thenBranch h.2).bind fun thenType => ?_
    exact (alongside_expect .thenBranch _ _ _).bind fun _ => parallel_pure _
  | .ifElse loc condition thenBranch elseBranch, _, h => by
    simp only [Expr.relabel, check, Expr.location_relabel]
    refine (check_relabel condition h.1).bind fun conditionType => ?_
    refine (alongside_expect .condition _ _ _).bind fun _ => ?_
    refine (check_relabel thenBranch h.2.1).bind fun thenType => ?_
    refine (check_relabel elseBranch h.2.2).bind fun elseType => ?_
    exact .ite (parallel_pure _) (parallel_throw rfl)
  | .call loc function arguments, _, h => by
    -- only the function of a call is named in errors, and it is a name
    have hcallee : calleeName (function.relabel place r) = r (calleeName function) := by
      cases function with
      | name => rfl
      | _ => simp [Expr.Fits, Expr.isName] at h
    simp only [Expr.relabel, check, Expr.location_relabel, Expr.length_relabelAll, hcallee]
    refine (check_relabel function h.2.1).bind fun found => ?_
    cases found with
    | func params result =>
      refine .ite ?_ (parallel_throw rfl)
      exact (checkArguments_relabel arguments h.2.2 _ 1 params).bind fun _ => parallel_pure _
    | _ => exact parallel_throw rfl
  | .var loc n value, _, h => by
    simp only [Expr.relabel, check]
    refine (check_relabel value h.2.2).bind fun ty => ?_
    exact (alongside_define n ty).bind fun _ => parallel_pure _
  | .block loc statements, _, h => by
    simp only [Expr.relabel, check]
    exact alongside_inScope (checkStatements_relabel statements h .unit)

/-- Checking the arguments of a relabeled call. -/
theorem checkArguments_relabel : (arguments : List Expr) → Expr.FitAll names arguments →
    (function : String) → (number : Nat) → (params : List Ty) →
    Alongside place r (checkArguments function number params arguments)
      (checkArguments (r function) number params (Expr.relabelAll place r arguments))
  | [], _, function, number, params => by
    cases params <;> exact parallel_pure _
  | argument :: rest, h, function, number, [] => parallel_pure _
  | argument :: rest, h, function, number, param :: params => by
    simp only [Expr.relabelAll, checkArguments, Expr.location_relabel]
    refine (check_relabel argument h.1).bind fun found => ?_
    refine (alongside_expect (.argument number function) _ _ _).bind fun _ => ?_
    exact checkArguments_relabel rest h.2 function (number + 1) params

/-- Checking the statements of a relabeled block. -/
theorem checkStatements_relabel : (statements : List Expr) → {pos : Place} →
    Expr.FitBody names pos statements → (last : Ty) →
    Alongside place r (checkStatements last statements)
      (checkStatements last (Expr.relabelAll place r statements))
  | [], _, _, _ => parallel_pure _
  | statement :: rest, _, h, last => by
    simp only [Expr.relabelAll, checkStatements]
    exact (check_relabel statement h.1).bind fun ty => checkStatements_relabel rest h.2 ty

end

/-- A relabeled program has the same type. -/
theorem typeOf_relabel (place : Location → Location) (r : Renaming) {e : Expr} {pos : Place}
    (h : e.Fits names pos) :
    typeOf (e.relabel place r) = (typeOf e).mapError (TypeError.relabel place r) := by
  have hrun := (check_relabel e h : Alongside place r _ _) rootScopes
  rw [rename_rootScopes] at hrun
  unfold typeOf
  rw [hrun]
  cases check e rootScopes <;> rfl

end Typing

/-! ## Evaluating -/

namespace Eval

/-! ### Steps of evaluation -/

/-- A step of evaluation, and the same step for a relabeled program. -/
abbrev Alongside (place : Location → Location) (r : Renaming) {α : Type} (act act' : Run α) :
    Prop :=
  Parallel (State.rename r) (RuntimeError.relabel place r) act act'

/-- The same for the evaluator: a name finds the same value. -/
theorem alongside_lookup (n : String) (loc : Location) :
    Alongside place r (lookup n loc) (lookup (r n) (place loc)) := by
  intro s
  simp only [lookup, State.rename, Scopes.lookup_rename]
  cases s.scopes.lookup n <;> rfl

/-- Values are declared as types are. -/
theorem alongside_define (n : String) (v : Value) :
    Alongside place r (define n v) (define (r n) v) := by
  intro s
  simp only [define, State.rename, Scopes.define_rename]

/-- An assignment finds the renamed variable. -/
theorem alongside_assign (n : String) (v : Value) (loc : Location) :
    Alongside place r (assign n v loc) (assign (r n) v (place loc)) := by
  intro s
  simp only [assign, State.rename, Scopes.assign?_rename]
  cases s.scopes.assign? n v <;> rfl

/-- Whether a value can be called does not depend on names. -/
theorem alongside_asBuiltin (v : Value) (loc : Location) :
    Alongside place r (asBuiltin v loc) (asBuiltin v (place loc)) := by
  cases v with
  | builtin b => exact parallel_pure b
  | _ => exact parallel_throw rfl

/-- Nor does whether it decides a condition. -/
theorem alongside_asBool (v : Value) (loc : Location) :
    Alongside place r (asBool v loc) (asBool v (place loc)) := by
  cases v with
  | bool b => exact parallel_pure b
  | _ => exact parallel_throw rfl

/-- Operators keep their names for the evaluator too. -/
theorem alongside_operator {op : String} (hop : r op = op) (loc : Location) :
    Alongside place r (operator op loc) (operator op (place loc)) := by
  have hlookup : Alongside place r (lookup op loc) (lookup (r op) (place loc)) :=
    alongside_lookup op loc
  rw [hop] at hlookup
  exact hlookup.bind fun v => alongside_asBuiltin v loc

/-- A builtin function knows no names; its fault is reported at the new place. -/
theorem alongside_apply (b : Builtin) (args : List Value) (loc : Location) :
    Alongside place r (apply b args loc) (apply b args (place loc)) := by
  intro s
  simp only [apply, State.rename]
  cases b.apply args s.output <;> rfl

/-- Scopes of values are entered and left alike. -/
theorem alongside_inScope {α : Type} {act act' : Run α} (h : Alongside place r act act') :
    Alongside place r (inScope act) (inScope act') :=
  h.within (fun _ => rfl) fun s => congrArg (State.mk · s.output) s.scopes.pop_rename

/-! ### Whole trees -/

mutual

/-- Evaluating a relabeled tree. -/
theorem eval_relabel : (e : Expr) → {pos : Place} → e.Fits names pos →
    Alongside place r (eval e) (eval (e.relabel place r))
  | .int loc n, _, _ => parallel_pure _
  | .bool loc b, _, _ => parallel_pure _
  | .unit loc, _, _ => parallel_pure _
  | .name loc n, _, _ => alongside_lookup n loc
  | .unary loc op operand, _, h => by
    simp only [Expr.relabel, eval]
    refine (alongside_operator (Renaming.apply_unaryName h.1) loc).bind fun b => ?_
    exact (eval_relabel operand h.2).bind fun v => alongside_apply b [v] loc
  | .binary loc op left right, _, h => by
    rcases h.binary_cases with ⟨rfl, nameLoc, n, rfl⟩ | ⟨hassign, hop⟩
    · simp only [Expr.relabel, eval_assign]
      refine (eval_relabel right h.2.2).bind fun v => ?_
      exact (alongside_assign n v nameLoc).bind fun _ => parallel_pure v
    · by_cases hlogic : op = "and" ∨ op = "or"
      · simp only [Expr.relabel, eval_logic hlogic, Expr.location_relabel]
        refine (eval_relabel left h.2.1).bind fun v => ?_
        refine (alongside_asBool v left.location).bind fun decided => ?_
        refine .ite (parallel_pure _) ?_
        refine (eval_relabel right h.2.2).bind fun w => ?_
        exact (alongside_asBool w right.location).bind fun _ => parallel_pure _
      · simp only [Expr.relabel, eval_operation hassign hlogic]
        refine (alongside_operator (Renaming.apply_binary hop) loc).bind fun b => ?_
        refine (eval_relabel left h.2.1).bind fun v => ?_
        exact (eval_relabel right h.2.2).bind fun w => alongside_apply b [v, w] loc
  | .ifThen loc condition thenBranch, _, h => by
    simp only [Expr.relabel, eval, Expr.location_relabel]
    refine (eval_relabel condition h.1).bind fun v => ?_
    refine (alongside_asBool v condition.location).bind fun holds => ?_
    exact .ite ((eval_relabel thenBranch h.2).bind fun _ => parallel_pure _) (parallel_pure _)
  | .ifElse loc condition thenBranch elseBranch, _, h => by
    simp only [Expr.relabel, eval, Expr.location_relabel]
    refine (eval_relabel condition h.1).bind fun v => ?_
    refine (alongside_asBool v condition.location).bind fun holds => ?_
    exact .ite (eval_relabel thenBranch h.2.1) (eval_relabel elseBranch h.2.2)
  | .call loc function arguments, _, h => by
    simp only [Expr.relabel, eval, Expr.location_relabel]
    refine (eval_relabel function h.2.1).bind fun f => ?_
    refine (alongside_asBuiltin f function.location).bind fun b => ?_
    exact (evalArguments_relabel arguments h.2.2).bind fun args =>
      alongside_apply b args loc
  | .var loc n value, _, h => by
    simp only [Expr.relabel, eval]
    refine (eval_relabel value h.2.2).bind fun v => ?_
    exact (alongside_define n v).bind fun _ => parallel_pure v
  | .block loc statements, _, h => by
    simp only [Expr.relabel, eval]
    exact alongside_inScope (evalStatements_relabel statements h .unit)

/-- Evaluating the arguments of a relabeled call. -/
theorem evalArguments_relabel : (arguments : List Expr) → Expr.FitAll names arguments →
    Alongside place r (evalArguments arguments)
      (evalArguments (Expr.relabelAll place r arguments))
  | [], _ => parallel_pure _
  | argument :: rest, h => by
    simp only [Expr.relabelAll, evalArguments]
    refine (eval_relabel argument h.1).bind fun v => ?_
    exact (evalArguments_relabel rest h.2).bind fun vs => parallel_pure (v :: vs)

/-- Evaluating the statements of a relabeled block. -/
theorem evalStatements_relabel : (statements : List Expr) → {pos : Place} →
    Expr.FitBody names pos statements → (last : Value) →
    Alongside place r (evalStatements last statements)
      (evalStatements last (Expr.relabelAll place r statements))
  | [], _, _, _ => parallel_pure _
  | statement :: rest, _, h, last => by
    simp only [Expr.relabelAll, evalStatements]
    exact (eval_relabel statement h.1).bind fun v => evalStatements_relabel rest h.2 v

end

/-- A relabeled program has the same value and prints the same. -/
theorem interpret_relabel (place : Location → Location) (r : Renaming) {e : Expr} {pos : Place}
    (h : e.Fits names pos) (output : Output) :
    interpret (e.relabel place r) output =
      ((interpret e output).1.mapError (RuntimeError.relabel place r),
        (interpret e output).2) := by
  have hrun := (eval_relabel e h : Alongside place r _ _) ⟨rootScopes, output⟩
  simp only [State.rename, rename_rootScopes] at hrun
  unfold interpret
  rw [hrun]
  cases eval e ⟨rootScopes, output⟩ <;> rfl

end Eval

/-! ## Lowering -/

namespace Lowering

/-! ### Steps of lowering -/

mutual

/-- Whether something is assigned to in a tree can be seen without names. -/
@[simp] theorem assigns_relabel : (e : Expr) → assigns (e.relabel place r) = assigns e
  | .int _ _ | .bool _ _ | .unit _ | .name _ _ => rfl
  | .unary _ _ operand => by simp only [Expr.relabel, assigns, assigns_relabel operand]
  | .binary _ _ left right => by
    simp only [Expr.relabel, assigns, assigns_relabel left, assigns_relabel right]
  | .ifThen _ condition thenBranch => by
    simp only [Expr.relabel, assigns, assigns_relabel condition, assigns_relabel thenBranch]
  | .ifElse _ condition thenBranch elseBranch => by
    simp only [Expr.relabel, assigns, assigns_relabel condition, assigns_relabel thenBranch,
      assigns_relabel elseBranch]
  | .call _ function arguments => by
    simp only [Expr.relabel, assigns, assigns_relabel function, assignsAny_relabelAll arguments]
  | .var _ _ value => by simp only [Expr.relabel, assigns, assigns_relabel value]
  | .block _ statements => by
    simp only [Expr.relabel, assigns, assignsAny_relabelAll statements]

@[simp] theorem assignsAny_relabelAll :
    (es : List Expr) → assignsAny (Expr.relabelAll place r es) = assignsAny es
  | [] => rfl
  | e :: rest => by
    simp only [Expr.relabelAll, assignsAny, assigns_relabel e, assignsAny_relabelAll rest]

end

/-- A step of lowering, and the same step for a relabeled program. -/
abbrev Alongside (place : Location → Location) (r : Renaming) {α : Type} (act act' : Lower α) :
    Prop :=
  Parallel (Draft.relabel place r) (LoweringError.relabel place r) act act'

/-- The names of the language are chosen by neither side, so the same variable is minted. -/
theorem alongside_mint : Alongside place r mint mint := fun _ => rfl

/-- So is the same label. -/
theorem alongside_mintLabel (stem : String) :
    Alongside place r (mintLabel stem) (mintLabel stem) := fun _ => rfl

/-- The same instruction is written, for the new place. -/
theorem alongside_emit (action : Action) (loc : Location) :
    Alongside place r (emit action loc) (emit action (place loc)) := by
  refine parallel_modify fun d => ?_
  simp only [Draft.emit, Draft.relabel, Array.map_push, Instr.move]

/-- The same for lowering: a name finds the same variable. -/
theorem alongside_lookup (n : String) (loc : Location) :
    Alongside place r (lookup n loc) (lookup (r n) (place loc)) := by
  intro d
  simp only [lookup, Draft.relabel, Scopes.lookup_rename]
  cases d.scopes.lookup n <;> rfl

/-- Operators keep their names here as well. -/
theorem alongside_operator {op : String} (hop : r op = op) (loc : Location) :
    Alongside place r (lookup op loc) (lookup op (place loc)) := by
  have hlookup : Alongside place r (lookup op loc) (lookup (r op) (place loc)) :=
    alongside_lookup op loc
  rw [hop] at hlookup
  exact hlookup

/-- A variable is declared under the new name. -/
theorem alongside_declare (n : String) (v : Var) :
    Alongside place r (declare n v) (declare (r n) v) := by
  refine parallel_modify fun d => ?_
  simp only [Draft.relabel, Scopes.define_rename]

/-- A call mints its result and is written for the new place. -/
theorem alongside_call (callee : Var) (args : List Var) (loc : Location) :
    Alongside place r (call callee args loc) (call callee args (place loc)) := by
  refine alongside_mint.bind fun dest => ?_
  exact (alongside_emit _ loc).bind fun _ => parallel_pure dest

/-- Whether an operand has to be copied is decided by its variable. -/
theorem alongside_settle (v : Var) (overwritten : Bool) (loc : Location) :
    Alongside place r (settle v overwritten loc) (settle v overwritten (place loc)) := by
  intro d
  -- whether a variable is declared is the same in both drafts
  have hcopy : Alongside place r (do
      let snapshot ← mint
      emit (.copy v snapshot) loc
      pure snapshot) (do
      let snapshot ← mint
      emit (.copy v snapshot) (place loc)
      pure snapshot) :=
    alongside_mint.bind fun snapshot =>
      (alongside_emit _ loc).bind fun _ => parallel_pure snapshot
  exact Parallel.ite (c := (d.declared.contains v && overwritten) = true) hcopy
    (parallel_pure v) d

/-- Scopes of variables are entered and left alike. -/
theorem alongside_inScope {α : Type} {act act' : Lower α} (h : Alongside place r act act') :
    Alongside place r (inScope act) (inScope act') := by
  refine h.within (fun _ => rfl) fun d => ?_
  simp only [Draft.pop, Draft.relabel, Scopes.pop_rename]

/-- The end of a logical operator writes a fixed list of instructions. -/
theorem alongside_mergeLogic (decided : Bool) (loc : Location) (y result : Var)
    (skipLabel endLabel : Label) :
    Alongside place r (mergeLogic decided loc y result skipLabel endLabel)
      (mergeLogic decided (place loc) y result skipLabel endLabel) := by
  refine (alongside_emit _ loc).bind fun _ => ?_
  refine (alongside_emit _ loc).bind fun _ => ?_
  refine (alongside_emit _ loc).bind fun _ => ?_
  refine alongside_mint.bind fun x => ?_
  refine (alongside_emit _ loc).bind fun _ => ?_
  refine (alongside_emit _ loc).bind fun _ => ?_
  exact (alongside_emit _ loc).bind fun _ => parallel_pure result

/-! ### Whole trees -/

mutual

/-- Lowering a relabeled tree. -/
theorem lower_relabel : (e : Expr) → {pos : Place} → e.Fits names pos →
    Alongside place r (lower e) (lower (e.relabel place r))
  | .int loc n, _, _ | .bool loc n, _, _ => by
    simp only [Expr.relabel, lower]
    refine alongside_mint.bind fun dest => ?_
    exact (alongside_emit _ loc).bind fun _ => parallel_pure dest
  | .unit loc, _, _ => parallel_pure _
  | .name loc n, _, _ => alongside_lookup n loc
  | .unary loc op operand, _, h => by
    simp only [Expr.relabel, lower]
    refine (alongside_operator (Renaming.apply_unaryName h.1) loc).bind fun callee => ?_
    exact (lower_relabel operand h.2).bind fun v => alongside_call callee [v] loc
  | .binary loc op left right, _, h => by
    rcases h.binary_cases with ⟨rfl, nameLoc, n, rfl⟩ | ⟨hassign, hop⟩
    · simp only [Expr.relabel, lower_assign]
      refine (alongside_lookup n nameLoc).bind fun cell => ?_
      refine (lower_relabel right h.2.2).bind fun v => ?_
      exact (alongside_emit _ loc).bind fun _ => parallel_pure cell
    · by_cases hlogic : op = "and" ∨ op = "or"
      · simp only [Expr.relabel, lower_logic hlogic]
        refine (lower_relabel left h.2.1).bind fun v => ?_
        refine (alongside_mintLabel _).bind fun rightLabel => ?_
        refine (alongside_mintLabel _).bind fun skipLabel => ?_
        refine (alongside_mintLabel _).bind fun endLabel => ?_
        refine (alongside_emit _ loc).bind fun _ => ?_
        refine alongside_mint.bind fun result => ?_
        refine (alongside_emit _ loc).bind fun _ => ?_
        exact (lower_relabel right h.2.2).bind fun w =>
          alongside_mergeLogic _ loc w result skipLabel endLabel
      · simp only [Expr.relabel, lower_operation hassign hlogic, Expr.location_relabel,
          assigns_relabel]
        refine (alongside_operator (Renaming.apply_binary hop) loc).bind fun callee => ?_
        refine (lower_relabel left h.2.1).bind fun v => ?_
        refine (alongside_settle v _ left.location).bind fun v' => ?_
        exact (lower_relabel right h.2.2).bind fun w => alongside_call _ _ loc
  | .ifThen loc condition thenBranch, _, h => by
    simp only [Expr.relabel, lower]
    refine (lower_relabel condition h.1).bind fun v => ?_
    refine (alongside_mintLabel _).bind fun thenLabel => ?_
    refine (alongside_mintLabel _).bind fun endLabel => ?_
    refine (alongside_emit _ loc).bind fun _ => ?_
    refine (alongside_emit _ loc).bind fun _ => ?_
    refine (lower_relabel thenBranch h.2).bind fun _ => ?_
    exact (alongside_emit _ loc).bind fun _ => parallel_pure _
  | .ifElse loc condition thenBranch elseBranch, _, h => by
    simp only [Expr.relabel, lower]
    refine (lower_relabel condition h.1).bind fun v => ?_
    refine (alongside_mintLabel _).bind fun thenLabel => ?_
    refine (alongside_mintLabel _).bind fun elseLabel => ?_
    refine (alongside_mintLabel _).bind fun endLabel => ?_
    refine (alongside_emit _ loc).bind fun _ => ?_
    refine (alongside_emit _ loc).bind fun _ => ?_
    refine (lower_relabel thenBranch h.2.1).bind fun thenVar => .ite ?_ ?_
    · -- nothing to merge
      refine (alongside_emit _ loc).bind fun _ => ?_
      refine (alongside_emit _ loc).bind fun _ => ?_
      refine (lower_relabel elseBranch h.2.2).bind fun _ => ?_
      exact (alongside_emit _ loc).bind fun _ => parallel_pure _
    · refine alongside_mint.bind fun result => ?_
      refine (alongside_emit _ loc).bind fun _ => ?_
      refine (alongside_emit _ loc).bind fun _ => ?_
      refine (alongside_emit _ loc).bind fun _ => ?_
      refine (lower_relabel elseBranch h.2.2).bind fun elseVar => ?_
      refine (alongside_emit _ loc).bind fun _ => ?_
      exact (alongside_emit _ loc).bind fun _ => parallel_pure result
  | .call loc function arguments, _, h => by
    simp only [Expr.relabel, lower, Expr.location_relabel, assignsAny_relabelAll]
    refine (lower_relabel function h.2.1).bind fun callee => ?_
    refine (alongside_settle callee _ function.location).bind fun callee' => ?_
    exact (lowerArguments_relabel arguments h.2.2).bind fun vs => alongside_call _ _ loc
  | .var loc n value, _, h => by
    simp only [Expr.relabel, lower]
    refine (lower_relabel value h.2.2).bind fun v => ?_
    refine alongside_mint.bind fun cell => ?_
    refine (alongside_emit _ loc).bind fun _ => ?_
    exact (alongside_declare n cell).bind fun _ => parallel_pure cell
  | .block loc statements, _, h => by
    simp only [Expr.relabel, lower]
    exact alongside_inScope (lowerStatements_relabel statements h .unit)

/-- Lowering the operands of a relabeled call. -/
theorem lowerArguments_relabel : (arguments : List Expr) → Expr.FitAll names arguments →
    Alongside place r (lowerArguments arguments)
      (lowerArguments (Expr.relabelAll place r arguments))
  | [], _ => parallel_pure _
  | argument :: rest, h => by
    simp only [Expr.relabelAll, lowerArguments, Expr.location_relabel, assignsAny_relabelAll]
    refine (lower_relabel argument h.1).bind fun v => ?_
    refine (alongside_settle v _ argument.location).bind fun v' => ?_
    exact (lowerArguments_relabel rest h.2).bind fun vs => parallel_pure (v' :: vs)

/-- Lowering the statements of a relabeled block. -/
theorem lowerStatements_relabel : (statements : List Expr) → {pos : Place} →
    Expr.FitBody names pos statements → (last : Var) →
    Alongside place r (lowerStatements last statements)
      (lowerStatements last (Expr.relabelAll place r statements))
  | [], _, _, _ => parallel_pure _
  | statement :: rest, _, h, last => by
    simp only [Expr.relabelAll, lowerStatements]
    exact (lower_relabel statement h.1).bind fun v => lowerStatements_relabel rest h.2 v

end

/-- The printing functions have reserved names. -/
theorem printer_mem_reservedNames {ty : Ty} {name : String} (h : printer? ty = some name) :
    name ∈ reservedNames := by
  cases ty with
  | int => exact Option.some.inj h ▸ name_mem_reservedNames .printInt
  | bool => exact Option.some.inj h ▸ name_mem_reservedNames .printBool
  | _ => contradiction

/-- The call that prints a value uses a builtin function, whose name is kept. -/
theorem lowerProgram_relabel {e : Expr} {pos : Place} (h : e.Fits names pos) (ty : Ty) :
    Alongside place r (lowerProgram e ty) (lowerProgram (e.relabel place r) ty) := by
  simp only [lowerProgram, Expr.location_relabel]
  refine (lower_relabel e h).bind fun v => ?_
  cases hprinter : printer? ty with
  | none => exact parallel_pure ()
  | some name =>
    have hname : r name = name := r.reserved (printer_mem_reservedNames hprinter)
    refine (alongside_operator hname e.location).bind fun callee => ?_
    exact (alongside_call callee [v] e.location).bind fun _ => parallel_pure ()

/-- The code of a relabeled program is the same code at other places. -/
theorem generate_relabel (place : Location → Location) (r : Renaming) {e : Expr} {pos : Place}
    (h : e.Fits names pos) (ty : Ty) :
    generate reservedNames (e.relabel place r) ty =
      ((generate reservedNames e ty).map (List.map (Instr.move place))).mapError
        (LoweringError.relabel place r) := by
  have hrun := (lowerProgram_relabel h ty : Alongside place r _ _) (Draft.start reservedNames)
  rw [Draft.relabel_start] at hrun
  unfold generate
  rw [hrun]
  cases lowerProgram e ty (Draft.start reservedNames) with
  | ok _ d => exact congrArg Except.ok d.code.toList_map
  | error e d => rfl

end Lowering
end ExprLang
