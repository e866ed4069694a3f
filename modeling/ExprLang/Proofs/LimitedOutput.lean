/-
  LIMITED OUTPUT: what a program does when its output is closed on the way.

  `prints e` lists the lines that an expression prints, each with the place of the call that
  prints it.  It follows the evaluator from one operand to the next and knows of no output: from
  the scopes alone it is clear what will be printed.

  So a run can be told from the list.  `Follows act prints` says that `act` prints the lines of the
  list one after the other, whatever the output is.  If all of them are accepted, `act` ends as it
  does without a limit.  If one is refused, `act` ends with the fault of that call, and nothing
  after it has an effect.  There is one rule for each step of the evaluator, and `follows_eval` is
  one induction over the tree.
-/
import ExprLang.Proofs.EvalSteps

namespace ExprLang.Eval

variable {α β : Type}

/-! ## The lines that are printed -/

/-- A line, and where the call stands that prints it. -/
structure Printed where
  line : String
  location : Location
deriving DecidableEq

/-- What a step prints, given the scopes that it starts in. -/
abbrev Prints := Scopes Value → List Printed

/-- Nothing. -/
def silent : Prints := fun _ => []

/-- What a builtin prints at these operands. -/
def printsApply (b : Builtin) (args : List Value) (loc : Location) : Prints := fun _ =>
  match b.lineOf? args with
  | some line => [⟨line, loc⟩]
  | none => []

/-- What `act` prints, and after its result what the next step prints. -/
def Prints.andThen (prints : Prints) (act : Run α) (next : α → Prints) : Prints := fun scopes =>
  prints scopes ++
    match act ⟨scopes, {}⟩ with
    | .ok a s => next a s.scopes
    | .error _ _ => []

mutual

/-- The lines that the evaluation of an expression prints. -/
def prints : Expr → Prints
  | .int _ _ => silent
  | .bool _ _ => silent
  | .unit _ => silent
  | .name _ _ => silent
  | .unary loc op operand =>
    silent.andThen (operator (Expr.unaryName op) loc) fun b =>
      (prints operand).andThen (eval operand) fun v => printsApply b [v] loc
  | .binary loc op left right =>
    if op = "=" then
      match left with
      | .name _ _ => prints right
      | _ => silent
    else if op = "and" ∨ op = "or" then
      (prints left).andThen (eval left) fun v =>
        silent.andThen (asBool v left.location) fun decided =>
          if decided = decide (op = "or") then silent else prints right
    else
      silent.andThen (operator op loc) fun b =>
        (prints left).andThen (eval left) fun v =>
          (prints right).andThen (eval right) fun w => printsApply b [v, w] loc
  | .ifThen _ condition thenBranch =>
    (prints condition).andThen (eval condition) fun v =>
      silent.andThen (asBool v condition.location) fun holds =>
        if holds then prints thenBranch else silent
  | .ifElse _ condition thenBranch elseBranch =>
    (prints condition).andThen (eval condition) fun v =>
      silent.andThen (asBool v condition.location) fun holds =>
        if holds then prints thenBranch else prints elseBranch
  | .call loc function arguments =>
    (prints function).andThen (eval function) fun f =>
      silent.andThen (asBuiltin f function.location) fun b =>
        (printsArguments arguments).andThen (evalArguments arguments) fun args =>
          printsApply b args loc
  | .var _ _ value => prints value
  | .block _ statements => fun scopes => printsStatements statements scopes.push

/-- The lines that some expressions print from left to right. -/
def printsArguments : List Expr → Prints
  | [] => silent
  | argument :: rest => (prints argument).andThen (eval argument) fun _ => printsArguments rest

/-- The lines that some statements print one after the other. -/
def printsStatements : List Expr → Prints
  | [] => silent
  | statement :: rest => (prints statement).andThen (eval statement) fun _ => printsStatements rest

end

section Binary

variable {loc : Location} {op : String} {left right : Expr}

/-- A logical operator prints what its left side prints, and then, unless that one has decided, what
    its right side does. -/
theorem prints_logic (hop : op = "and" ∨ op = "or") :
    prints (.binary loc op left right) =
      (prints left).andThen (eval left) fun v =>
        silent.andThen (asBool v left.location) fun decided =>
          if decided = decide (op = "or") then silent else prints right := by
  have hassign : op ≠ "=" := by rcases hop with rfl | rfl <;> decide
  rw [prints.eq_def]
  simp only [if_neg hassign, if_pos hop]

/-- An operator prints what its sides print, from left to right, and then its own line. -/
theorem prints_operation (hassign : op ≠ "=") (hlogic : ¬(op = "and" ∨ op = "or")) :
    prints (.binary loc op left right) =
      silent.andThen (operator op loc) fun b =>
        (prints left).andThen (eval left) fun v =>
          (prints right).andThen (eval right) fun w => printsApply b [v, w] loc := by
  rw [prints.eq_def]
  simp only [if_neg hassign, if_neg hlogic]

end Binary

/-! ## Printing them -/

/-- Print the lines of some calls up to the first that is refused: where that one stands, if there
    is one, and the output after. -/
def printCalls : List Printed → Output → Option Location × Output
  | [], out => (none, out)
  | call :: rest, out =>
    match out.print? call.line with
    | some out => printCalls rest out
    | none => (some call.location, out)

/-- Of two lists of calls the second is made only if all of the first went through. -/
theorem printCalls_append (calls calls' : List Printed) (out : Output) :
    printCalls (calls ++ calls') out =
      match printCalls calls out with
      | (none, out) => printCalls calls' out
      | (some loc, out) => (some loc, out) := by
  induction calls generalizing out with
  | nil => rfl
  | cons call rest ih =>
    rw [List.cons_append, printCalls, printCalls]
    rcases out.print? call.line with _ | out'
    · rfl
    · exact ih out'

/-- Without a limit all lines are accepted. -/
theorem printCalls_unlimited (calls : List Printed) (lines : List String) :
    printCalls calls { lines } = (none, { lines := lines ++ calls.map (·.line) }) := by
  induction calls generalizing lines with
  | nil => simp [printCalls]
  | cons call rest ih => simp [printCalls, Output.print?, ih]

/-- So they are as long as there is room. -/
theorem printCalls_roomy {calls : List Printed} (lines : List String) {k : Nat}
    (h : calls.length ≤ k) :
    printCalls calls ⟨lines, some k⟩ =
      (none, ⟨lines ++ calls.map (·.line), some (k - calls.length)⟩) := by
  induction calls generalizing lines k with
  | nil => simp [printCalls]
  | cons call rest ih =>
    rw [List.length_cons] at h
    obtain ⟨k, rfl⟩ : ∃ m, k = m + 1 := ⟨k - 1, by omega⟩
    have hrest := ih (lines ++ [call.line]) (Nat.le_of_succ_le_succ h)
    simp [printCalls, Output.print?, hrest]

/-- The first line for which there is no room is refused. -/
theorem printCalls_full {calls : List Printed} (lines : List String) {k : Nat}
    (h : k < calls.length) :
    printCalls calls ⟨lines, some k⟩ =
      (some calls[k].location, ⟨lines ++ (calls.take k).map (·.line), some 0⟩) := by
  induction calls generalizing lines k with
  | nil => contradiction
  | cons call rest ih =>
    cases k with
    | zero => simp [printCalls, Output.print?]
    | succ k =>
      have hrest := ih (lines ++ [call.line]) (Nat.lt_of_succ_lt_succ h)
      simp [printCalls, Output.print?, hrest]

/-- None is refused exactly when the output takes all the lines. -/
theorem printCalls_eq_none_iff {calls : List Printed} {out out' : Output} :
    printCalls calls out = (none, out') ↔ out.printAll? (calls.map (·.line)) = some out' := by
  induction calls generalizing out with
  | nil => simp [printCalls, Output.printAll?]
  | cons call rest ih =>
    rw [printCalls, List.map_cons, Output.printAll?, List.foldlM_cons]
    rcases out.print? call.line with _ | next
    · simp
    · exact ih

/-! ## Steps that print what they are said to -/

/-- An outcome with another output. -/
def withOutput (out : Output) :
    EStateM.Result RuntimeError State α → EStateM.Result RuntimeError State α
  | .ok a s => .ok a { s with output := out }
  | .error e s => .error e { s with output := out }

theorem withOutput_withOutput (out out' : Output) (result : EStateM.Result RuntimeError State α) :
    withOutput out' (withOutput out result) = withOutput out' result := by
  cases result <;> rfl

/-- A step prints these lines, and the output decides about nothing but whether they are
    accepted. -/
def Follows (act : Run α) (prints : Prints) : Prop :=
  ∀ scopes out,
    match printCalls (prints scopes) out with
    | (none, out') => act ⟨scopes, out⟩ = withOutput out' (act ⟨scopes, {}⟩)
    | (some loc, out') =>
      ∃ scopes', act ⟨scopes, out⟩ = .error (.fault .outputClosed loc) ⟨scopes', out'⟩

section Rules

variable {act : Run α} {prints : Prints}

/-- If its lines are all accepted, a step ends as it would without a limit. -/
theorem Follows.accepted (h : Follows act prints) {scopes : Scopes Value} {out out' : Output}
    (hcalls : printCalls (prints scopes) out = (none, out')) :
    act ⟨scopes, out⟩ = withOutput out' (act ⟨scopes, {}⟩) := by
  have hscopes := h scopes out
  rwa [hcalls] at hscopes

/-- If a line is refused, the step ends in the fault of the call that prints it. -/
theorem Follows.refused (h : Follows act prints) {scopes : Scopes Value} {out out' : Output}
    {loc : Location} (hcalls : printCalls (prints scopes) out = (some loc, out')) :
    ∃ scopes', act ⟨scopes, out⟩ = .error (.fault .outputClosed loc) ⟨scopes', out'⟩ := by
  have hscopes := h scopes out
  rwa [hcalls] at hscopes

/-- Without a limit the lines stand behind those that were there. -/
theorem Follows.unlimited (h : Follows act prints) (scopes : Scopes Value) (lines : List String) :
    act ⟨scopes, { lines }⟩ =
      withOutput { lines := lines ++ (prints scopes).map (·.line) } (act ⟨scopes, {}⟩) :=
  h.accepted (printCalls_unlimited _ _)

/-- A step that does nothing with the output prints nothing. -/
theorem follows_silent (h : ∀ scopes out, act ⟨scopes, out⟩ = withOutput out (act ⟨scopes, {}⟩)) :
    Follows act silent := h

theorem follows_pure (a : α) : Follows (pure a : Run α) silent := follows_silent fun _ _ => rfl

theorem follows_throw (e : RuntimeError) : Follows (throw e : Run α) silent :=
  follows_silent fun _ _ => rfl

/-- Reading a name prints nothing. -/
theorem follows_lookup (n : String) (loc : Location) : Follows (lookup n loc) silent := by
  refine follows_silent fun scopes out => ?_
  simp only [lookup]
  cases scopes.lookup n <;> rfl

/-- Declaring a name prints nothing. -/
theorem follows_define (n : String) (v : Value) : Follows (define n v) silent :=
  follows_silent fun _ _ => rfl

/-- Assigning to a name prints nothing. -/
theorem follows_assign (n : String) (v : Value) (loc : Location) :
    Follows (assign n v loc) silent := by
  refine follows_silent fun scopes out => ?_
  simp only [assign]
  cases scopes.assign? n v <;> rfl

theorem follows_asBuiltin (v : Value) (loc : Location) : Follows (asBuiltin v loc) silent := by
  cases v with
  | builtin b => exact follows_pure b
  | _ => exact follows_throw _

theorem follows_asBool (v : Value) (loc : Location) : Follows (asBool v loc) silent := by
  cases v with
  | bool b => exact follows_pure b
  | _ => exact follows_throw _

/-- A builtin prints one line or none. -/
theorem follows_apply (b : Builtin) (args : List Value) (loc : Location) :
    Follows (apply b args loc) (printsApply b args loc) := by
  intro scopes out
  rcases hline : b.lineOf? args with _ | line
  · simp only [printsApply, hline, printCalls, apply, Builtin.apply]
    rcases b.compute args with cause | v <;> rfl
  · simp only [printsApply, hline, printCalls, apply, Builtin.apply]
    rcases out.print? line with _ | out'
    · exact ⟨scopes, rfl⟩
    · rfl

/-- Without a limit the second step starts with the lines of the first one, which is no difference
    to it. -/
theorem Follows.bind {k : α → Run β} {next : α → Prints} (h : Follows act prints)
    (hk : ∀ a, Follows (k a) (next a)) : Follows (act >>= k) (prints.andThen act next) := by
  intro scopes out
  have hfree := h.unlimited scopes []
  simp only [Prints.andThen, printCalls_append]
  rcases hcalls : printCalls (prints scopes) out with ⟨_ | loc, out'⟩
  · have haccepted := h.accepted hcalls
    rcases hact : act ⟨scopes, {}⟩ with ⟨a, ⟨inner, output⟩⟩ | ⟨e, s⟩
    · rw [hact] at hfree haccepted
      obtain ⟨-, -, rfl⟩ : a = a ∧ inner = inner ∧ output = _ := by
        simpa only [withOutput, EStateM.Result.ok.injEq, State.mk.injEq] using hfree
      simp only [bind_of_ok hact, bind_of_ok haccepted, (hk a).unlimited inner (_ ++ _),
        withOutput_withOutput]
      exact hk a inner out'
    · rw [hact] at haccepted
      simp only [bind_of_error hact, bind_of_error haccepted]
      rfl
  · obtain ⟨scopes', hact⟩ := h.refused hcalls
    exact ⟨scopes', bind_of_error hact⟩

/-- Which of two steps is taken may depend on anything but the output. -/
theorem Follows.ite {c : Prop} [Decidable c] {act' : Run α} {prints' : Prints}
    (h : Follows act prints) (h' : Follows act' prints') :
    Follows (if c then act else act') (if c then prints else prints') := by
  split
  · exact h
  · exact h'

/-- A last step that prints nothing. -/
theorem Follows.result {k : α → Run β} (h : Follows act prints)
    (hk : ∀ a, Follows (k a) silent) : Follows (act >>= k) prints := by
  have hnothing : prints.andThen act (fun _ => silent) = prints := by
    funext scopes
    rw [Prints.andThen]
    cases act ⟨scopes, {}⟩ <;> exact List.append_nil _
  exact hnothing ▸ h.bind hk

/-- What is printed in a scope of its own. -/
theorem Follows.inScope (h : Follows act prints) :
    Follows (inScope act) fun scopes => prints scopes.push := by
  intro scopes out
  rcases hcalls : printCalls (prints scopes.push) out with ⟨_ | loc, out'⟩
  · simp only [Eval.inScope, within, State.push, h.accepted hcalls]
    cases act ⟨scopes.push, {}⟩ <;> rfl
  · obtain ⟨scopes', hact⟩ := h.refused hcalls
    simp only [Eval.inScope, within, State.push, hact]
    exact ⟨scopes'.pop, rfl⟩

/-- Looking up an operator prints nothing. -/
theorem follows_operator (n : String) (loc : Location) : Follows (operator n loc) silent :=
  (follows_lookup n loc).result fun v => follows_asBuiltin v loc

end Rules

/-! ## The whole evaluator -/

mutual

/-- Every expression prints its list of lines, in its order, whatever the output is. -/
theorem follows_eval : (e : Expr) → Follows (eval e) (prints e)
  | .int _ n => follows_pure (Value.int n)
  | .bool _ b => follows_pure (Value.bool b)
  | .unit _ => follows_pure Value.unit
  | .name loc n => follows_lookup n loc
  | .unary loc op operand =>
    (follows_operator _ loc).bind fun b =>
      (follows_eval operand).bind fun v => follows_apply b [v] loc
  | .binary loc op left right => by
    have hright := follows_eval right
    by_cases hassign : op = "="
    · subst hassign
      -- the right side is evaluated before the name is assigned to
      cases left with
      | name nameLoc n =>
        rw [eval_assign, prints, if_pos rfl]
        exact hright.result fun v => (follows_assign n v nameLoc).result fun _ => follows_pure v
      | _ => exact follows_throw _
    · have hleft := follows_eval left
      by_cases hlogic : op = "and" ∨ op = "or"
      · rw [eval_logic hlogic, prints_logic hlogic]
        refine hleft.bind fun v => (follows_asBool v _).bind fun decided => ?_
        refine Follows.ite (follows_pure _) (hright.result fun w => ?_)
        exact (follows_asBool w _).result fun result => follows_pure _
      · rw [eval_operation hassign hlogic, prints_operation hassign hlogic]
        refine (follows_operator op loc).bind fun b => ?_
        exact hleft.bind fun v => hright.bind fun w => follows_apply b [v, w] loc
  | .ifThen _ condition thenBranch =>
    (follows_eval condition).bind fun v =>
      (follows_asBool v _).bind fun _ =>
        Follows.ite ((follows_eval thenBranch).result fun _ => follows_pure Value.unit)
          (follows_pure Value.unit)
  | .ifElse _ condition thenBranch elseBranch =>
    (follows_eval condition).bind fun v =>
      (follows_asBool v _).bind fun _ =>
        Follows.ite (follows_eval thenBranch) (follows_eval elseBranch)
  | .call loc function arguments =>
    (follows_eval function).bind fun f =>
      (follows_asBuiltin f _).bind fun b =>
        (follows_evalArguments arguments).bind fun args => follows_apply b args loc
  | .var _ n value =>
    (follows_eval value).result fun v => (follows_define n v).result fun _ => follows_pure v
  | .block _ statements => (follows_evalStatements .unit statements).inScope

/-- Arguments print their lines from left to right. -/
theorem follows_evalArguments :
    (es : List Expr) → Follows (evalArguments es) (printsArguments es)
  | [] => follows_pure []
  | e :: rest =>
    (follows_eval e).bind fun v =>
      (follows_evalArguments rest).result fun vs => follows_pure (v :: vs)

/-- Statements print their lines one after the other. -/
theorem follows_evalStatements (last : Value) :
    (es : List Expr) → Follows (evalStatements last es) (printsStatements es)
  | [] => follows_pure last
  | e :: rest => (follows_eval e).bind fun v => follows_evalStatements v rest

end

/-! ## Whole programs -/

/-- The lines of a program stand in the order of the calls that print them. -/
theorem interpret_lines (program : Expr) :
    (interpret program {}).2.lines = (prints program rootScopes).map (·.line) := by
  rw [interpret, (follows_eval program).unlimited rootScopes []]
  cases eval program ⟨rootScopes, {}⟩ <;> rfl

/-- An output that would take all the lines of a program takes them from the program, which then
    ends as it always does.  Any other output is closed to one of its calls. -/
theorem interpret_printAll (program : Expr) (out : Output) :
    match out.printAll? (interpret program {}).2.lines with
    | some out' => interpret program out = ((interpret program {}).1, out')
    | none => ∃ loc, (interpret program out).1 = .error (.fault .outputClosed loc) := by
  have hfollows := follows_eval program
  rw [interpret_lines]
  rcases hcalls : printCalls (prints program rootScopes) out with ⟨_ | loc, out'⟩
  · rw [printCalls_eq_none_iff.1 hcalls]
    simp only [interpret, hfollows.accepted hcalls]
    cases eval program ⟨rootScopes, {}⟩ <;> rfl
  · have hrefused : out.printAll? ((prints program rootScopes).map (·.line)) = none := by
      refine Option.eq_none_iff_forall_ne_some.2 fun out'' htaken => ?_
      rw [printCalls_eq_none_iff.2 htaken] at hcalls
      cases hcalls
    obtain ⟨scopes, hact⟩ := hfollows.refused hcalls
    rw [hrefused]
    exact ⟨loc, by simp only [interpret, hact]⟩

/-- A limit on the output cuts it off and does nothing else.  If a program prints no more lines
    than there is room for, it ends as it does without a limit, with the same output.  Otherwise it
    ends with the fault of the call that prints the first line too many, and the lines before it
    are the output. -/
theorem interpret_limited (program : Expr) (k : Nat) :
    (interpret program {}).2.lines = (prints program rootScopes).map (·.line) ∧
    ((interpret program {}).2.lines.length ≤ k →
      (interpret program (.withRoom (some k))).1 = (interpret program {}).1 ∧
      (interpret program (.withRoom (some k))).2.lines = (interpret program {}).2.lines) ∧
    (k < (interpret program {}).2.lines.length →
      ∃ call, (prints program rootScopes)[k]? = some call ∧
        (interpret program (.withRoom (some k))).1
          = .error (.fault .outputClosed call.location) ∧
        (interpret program (.withRoom (some k))).2.lines
          = (interpret program {}).2.lines.take k) := by
  have hfollows := follows_eval program
  rw [interpret_lines, List.length_map, ← List.map_take]
  refine ⟨rfl, fun hroom => ?_, fun hfull => ?_⟩
  · have haccepted := hfollows.accepted (printCalls_roomy [] hroom)
    rw [interpret, Output.withRoom, haccepted, interpret]
    cases eval program ⟨rootScopes, {}⟩ <;> exact ⟨rfl, rfl⟩
  · obtain ⟨scopes, hrefused⟩ := hfollows.refused (printCalls_full [] hfull)
    refine ⟨_, List.getElem?_eq_getElem hfull, ?_⟩
    rw [interpret, Output.withRoom, hrefused]
    exact ⟨rfl, rfl⟩

/-- Two lines in front of a division by zero: with room for one of them the division is not
    reached. -/
theorem interpret_limited_division : ∃ e,
    interpret e {} = (.error (.fault .divisionByZero (.of 3 3)), { lines := ["1", "true"] }) ∧
    (interpret e (.withRoom (some 2))).1 = .error (.fault .divisionByZero (.of 3 3)) ∧
    (interpret e (.withRoom (some 2))).2.lines = ["1", "true"] ∧
    (interpret e (.withRoom (some 1))).1 = .error (.fault .outputClosed (.of 2 3)) ∧
    (interpret e (.withRoom (some 1))).2.lines = ["1"] := by
  let e : Expr := .block (.of 1 1)
    [.call (.of 1 3) (.name (.of 1 3) "print_int") [.int (.of 1 13) 1],
      .call (.of 2 3) (.name (.of 2 3) "print_bool") [.bool (.of 2 14) true],
      .binary (.of 3 3) "/" (.int (.of 3 1) 1) (.int (.of 3 5) 0)]
  have hfree : interpret e {} =
      (.error (.fault .divisionByZero (.of 3 3)), { lines := ["1", "true"] }) := by
    with_unfolding_all rfl
  have hprinted : prints e rootScopes = [⟨"1", .of 1 3⟩, ⟨"true", .of 2 3⟩] := by
    with_unfolding_all rfl
  obtain ⟨-, hroomy, -⟩ := interpret_limited e 2
  obtain ⟨-, -, hfull⟩ := interpret_limited e 1
  rw [hfree] at hroomy hfull
  rw [hprinted] at hfull
  obtain ⟨call, hcall, hfault, hlines⟩ := hfull (by decide)
  obtain rfl : (⟨"true", .of 2 3⟩ : Printed) = call := Option.some.inj hcall
  exact ⟨e, hfree, (hroomy (by decide)).1, (hroomy (by decide)).2, hfault, hlines⟩

end ExprLang.Eval
