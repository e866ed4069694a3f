/-
  LAYOUT FREEDOM: what a program means does not depend on how it is laid out.

  Two texts whose tokens have the same kinds and the same spellings differ in white space,
  comments and line breaks at most.  Their trees differ in locations only, and so do the errors
  and the code that the passes make of them; what is printed and the values are the same.

  Both texts are compared with what remains of them when all locations are forgotten.  Every stage
  commutes with that, so a stage that is handed the same apart from locations gives the same apart
  from locations: that is `Together`, carried from stage to stage.
-/
import Mathlib
import ExprLang.Proofs.Printing
import ExprLang.Proofs.RelabeledPasses
import ExprLang.Proofs.MovedTokens

namespace ExprLang

variable {place : Location → Location}

/-! ## Moved code -/

namespace Instr

/-- What an instruction does to variables does not depend on where it comes from. -/
@[simp] theorem reads_move (i : Instr) : (i.move place).reads = i.reads := rfl

@[simp] theorem writes_move (i : Instr) : (i.move place).writes = i.writes := rfl

/-- Nor does what it does to control. -/
@[simp] theorem defines_move (i : Instr) : (i.move place).defines = i.defines := rfl

@[simp] theorem targets_move (i : Instr) : (i.move place).targets = i.targets := rfl

/-- Its text does not show its location. -/
@[simp] theorem text_move (i : Instr) : (i.move place).text = i.text := rfl

end Instr

/-- A listing shows no locations. -/
theorem listing_move (code : List Instr) :
    listing (code.map (Instr.move place)) = listing code := by
  simp only [listing, List.map_map, Function.comp_def, Instr.text_move]

namespace Validity

variable {reserved written : List Var}

/-- So moved code defines the same labels. -/
theorem definedLabels_move (code : List Instr) :
    definedLabels (code.map (Instr.move place)) = definedLabels code := by
  simp only [definedLabels, List.filterMap_map, Function.comp_def, Instr.defines_move]

/-- A label that is defined again is reported at the new place. -/
theorem repeatedLabels_move (earlier : List Label) (code : List Instr) :
    repeatedLabels earlier (code.map (Instr.move place)) =
      (repeatedLabels earlier code).map (Problem.move place) := by
  induction code generalizing earlier with
  | nil => rfl
  | cons i rest ih =>
    simp only [List.map_cons, repeatedLabels, Instr.defines_move]
    cases i.defines with
    | none => exact ih earlier
    | some l =>
      by_cases hearlier : l ∈ earlier
      · simp only [if_pos hearlier, ih, List.map_cons, Problem.move]
      · simp only [if_neg hearlier, ih]

/-- So is a label that is not there. -/
theorem missingTargets_move (defined : List Label) (i : Instr) :
    missingTargets defined (i.move place) =
      (missingTargets defined i).map (Problem.move place) := by
  simp only [missingTargets, Instr.targets_move, List.map_map, Function.comp_def, Problem.move]

/-- So is a variable that is read too early. -/
theorem earlyReads_move (i : Instr) :
    earlyReads reserved written (i.move place) =
      (earlyReads reserved written i).map (Problem.move place) := by
  simp only [earlyReads, Instr.reads_move, List.map_map, Function.comp_def, Problem.move]

/-- So is a write that is not allowed. -/
theorem badWrite_move (i : Instr) :
    badWrite reserved written (i.move place) =
      (badWrite reserved written i).map (Problem.move place) := by
  simp only [badWrite, Instr.writes_move]
  cases i.writes with
  | none => rfl
  | some v =>
    simp only [apply_ite (List.map (Problem.move place)), List.map_cons, List.map_nil,
      Problem.move]
    rfl

/-- The variables written so far are the same, so the reports are those of the single
    instructions. -/
theorem variableProblems_move (code : List Instr) :
    variableProblems reserved written (code.map (Instr.move place)) =
      (variableProblems reserved written code).map (Problem.move place) := by
  induction code generalizing written with
  | nil => rfl
  | cons i rest ih =>
    have hwritten : writtenAfter reserved written (i.move place)
        = writtenAfter reserved written i := rfl
    simp only [List.map_cons, variableProblems, earlyReads_move, badWrite_move, hwritten, ih,
      List.map_append]

/-- The problems of moved code are those of the code, moved. -/
theorem problems_move (code : List Instr) (names : List String) :
    problems (code.map (Instr.move place)) names =
      (problems code names).map (Problem.move place) := by
  simp only [problems, repeatedLabels_move, definedLabels_move, variableProblems_move,
    List.map_append, List.flatMap_map, List.map_flatMap, missingTargets_move]

end Validity

/-! ## Trees without locations -/

namespace Expr

mutual

/-- What remains of a tree is the tree without its locations. -/
theorem move_forget : (e : Expr) → e.relabel Location.forget .none = e.unlocated
  | .int _ _ | .bool _ _ | .unit _ | .name _ _ => rfl
  | .unary _ _ operand => by
    simp only [relabel, unlocated, Location.forget, move_forget operand]
  | .binary _ _ left right => by
    simp only [relabel, unlocated, Location.forget, move_forget left, move_forget right]
  | .ifThen _ condition thenBranch => by
    simp only [relabel, unlocated, Location.forget, move_forget condition, move_forget thenBranch]
  | .ifElse _ condition thenBranch elseBranch => by
    simp only [relabel, unlocated, Location.forget, move_forget condition, move_forget thenBranch,
      move_forget elseBranch]
  | .call _ function arguments => by
    simp only [relabel, unlocated, Location.forget, move_forget function, moveAll_forget arguments]
  | .var _ n value => by
    simp only [relabel, unlocated, Location.forget, move_forget value]
    rfl
  | .block _ statements => by
    simp only [relabel, unlocated, Location.forget, moveAll_forget statements]

/-- What remains of some trees are the trees without their locations. -/
theorem moveAll_forget : (es : List Expr) →
    relabelAll Location.forget .none es = allUnlocated es
  | [] => rfl
  | e :: rest => by
    simp only [relabelAll, allUnlocated, move_forget e, moveAll_forget rest]

end

end Expr

/-! ## Outcomes that differ in places only -/

section Together

variable {ε δ α β : Type}

/-- Both succeed, with results that go together, or both fail, with errors that do. -/
inductive Together (same : α → α → Prop) (alike : ε → ε → Prop) : Except ε α → Except ε α → Prop
  | ok {a b : α} (h : same a b) : Together same alike (.ok a) (.ok b)
  | error {e e' : ε} (h : alike e e') : Together same alike (.error e) (.error e')

/-- What is the same once translated goes together. -/
theorem together_of_eq {f : α → β} {g : ε → δ} {x y : Except ε α}
    (h : (x.map f).mapError g = (y.map f).mapError g) :
    Together (fun a b => f a = f b) (fun e e' => g e = g e') x y := by
  rcases x with e | a <;> rcases y with e' | b
  · exact .error (Except.error.inj h)
  · contradiction
  · contradiction
  · exact .ok (Except.ok.inj h)

/-- Two outcomes that agree but for their errors go together when the errors do. -/
theorem together_of_mapError {g : ε → δ} {x y : Except ε α} (h : x.mapError g = y.mapError g) :
    Together Eq (fun e e' => g e = g e') x y := by
  have hid : (x.map id).mapError g = (y.map id).mapError g := by
    rw [Except.map_id]
    exact h
  exact together_of_eq hid

end Together

/-- The same error, elsewhere.  The texts of problems show the places of the instructions to
    blame, so they are compared as the problems that they are texts of. -/
inductive ProgramError.SameElsewhere : ProgramError → ProgramError → Prop
  | lex {e e' : LexError} (h : e.move Location.forget = e'.move Location.forget) :
      SameElsewhere (.lex e) (.lex e')
  | parse {e e' : ParseError} (h : e.move Location.forget = e'.move Location.forget) :
      SameElsewhere (.parse e) (.parse e')
  | type {e e' : TypeError}
      (h : e.relabel Location.forget .none = e'.relabel Location.forget .none) :
      SameElsewhere (.type e) (.type e')
  | lowering {e e' : LoweringError}
      (h : e.relabel Location.forget .none = e'.relabel Location.forget .none) :
      SameElsewhere (.lowering e) (.lowering e')
  | runtime {e e' : RuntimeError}
      (h : e.relabel Location.forget .none = e'.relabel Location.forget .none) :
      SameElsewhere (.runtime e) (.runtime e')
  | malformed {problems problems' : List Problem}
      (h : problems.map (Problem.move Location.forget)
        = problems'.map (Problem.move Location.forget)) :
      SameElsewhere (.malformed (problems.map Problem.text))
        (.malformed (problems'.map Problem.text))

/-- Two programs of the grammar that differ in locations only. -/
structure SameTree (e e' : Expr) : Prop where
  left : e.Fits (Grammar.Nameable fun _ => True) .value
  right : e'.Fits (Grammar.Nameable fun _ => True) .value
  unlocated : e.unlocated = e'.unlocated

namespace SameTree

variable {e e' : Expr} (h : SameTree e e')

include h

/-- The two trees are one tree when all locations are forgotten. -/
theorem relabel : e.relabel Location.forget .none = e'.relabel Location.forget .none := by
  rw [Expr.move_forget, Expr.move_forget, h.unlocated]

/-- The types are the same, or the errors are but for their locations. -/
theorem typeOf : Together Eq
    (fun d d' => d.relabel Location.forget .none = d'.relabel Location.forget .none)
    (Typing.typeOf e) (Typing.typeOf e') := by
  have hleft := Typing.typeOf_relabel Location.forget .none h.left
  have hright := Typing.typeOf_relabel Location.forget .none h.right
  rw [h.relabel, hright] at hleft
  exact together_of_mapError hleft.symm

/-- The code is the same but for locations, or the errors are. -/
theorem generate (ty : Ty) : Together
    (fun c c' => c.map (Instr.move Location.forget) = c'.map (Instr.move Location.forget))
    (fun d d' => d.relabel Location.forget .none = d'.relabel Location.forget .none)
    (Lowering.generate reservedNames e ty) (Lowering.generate reservedNames e' ty) := by
  have hleft := Lowering.generate_relabel Location.forget .none h.left ty
  have hright := Lowering.generate_relabel Location.forget .none h.right ty
  rw [h.relabel, hright] at hleft
  exact together_of_eq hleft.symm

/-- The same is printed, and it ends in the same way. -/
theorem interpret (output : Output) :
    Together Eq
      (fun d d' => d.relabel Location.forget .none = d'.relabel Location.forget .none)
      (Eval.interpret e output).1 (Eval.interpret e' output).1 ∧
    (Eval.interpret e output).2 = (Eval.interpret e' output).2 := by
  have hleft := Eval.interpret_relabel Location.forget .none h.left output
  have hright := Eval.interpret_relabel Location.forget .none h.right output
  rw [h.relabel, hright] at hleft
  obtain ⟨hvalue, houtput⟩ := Prod.mk.inj hleft
  exact ⟨together_of_mapError hvalue.symm, houtput.symm⟩

end SameTree

/-! ## Texts with the same words -/

section Words

variable {source source' : String} {tokens tokens' : List Token}

/-- Tokens with the same kinds and spellings are the same once their locations are forgotten. -/
theorem move_forget_of_words
    (hwords : tokens.map (fun t => (t.kind, t.text)) = tokens'.map fun t => (t.kind, t.text)) :
    tokens.map (Token.move Location.forget) = tokens'.map (Token.move Location.forget) := by
  have hforget : ∀ ts : List Token, ts.map (Token.move Location.forget)
      = (ts.map fun t => (t.kind, t.text)).map fun w => ⟨w.1, w.2, .synthetic⟩ := by
    intro ts
    rw [List.map_map]
    rfl
  rw [hforget, hforget, hwords]

/-- The trees of tokens with the same kinds and spellings. -/
theorem parse_together
    (hwords : tokens.map (fun t => (t.kind, t.text)) = tokens'.map fun t => (t.kind, t.text)) :
    Together (Option.Rel SameTree)
      (fun e e' => e.move Location.forget = e'.move Location.forget)
      (Grammar.parse tokens) (Grammar.parse tokens') := by
  have hmoved : ((Grammar.parse tokens).map (Option.map (Expr.move Location.forget))).mapError
        (ParseError.move Location.forget)
      = ((Grammar.parse tokens').map (Option.map (Expr.move Location.forget))).mapError
        (ParseError.move Location.forget) := by
    rw [← Grammar.parse_move, ← Grammar.parse_move, move_forget_of_words hwords]
  have hparse := together_of_eq hmoved
  rcases hleft : Grammar.parse tokens with e | t <;>
    rcases hright : Grammar.parse tokens' with e' | t' <;> rw [hleft, hright] at hparse
  · cases hparse with
    | error herror => exact .error herror
  · contradiction
  · contradiction
  · cases hparse with
    | ok htree =>
      match t, t' with
      | none, none => exact .ok .none
      | none, some _ => contradiction
      | some _, none => contradiction
      | some tree, some tree' =>
        refine .ok (.some ⟨Grammar.fits_of_parse_any hleft, Grammar.fits_of_parse_any hright, ?_⟩)
        rw [← Expr.move_forget, ← Expr.move_forget]
        exact Option.some.inj htree

/-- Texts with the same words have trees that differ in their locations only, or fail at the same
    token. -/
theorem readProgram_together (h : tokenize source = .ok tokens)
    (h' : tokenize source' = .ok tokens')
    (hwords : tokens.map (fun t => (t.kind, t.text)) = tokens'.map fun t => (t.kind, t.text)) :
    Together (Option.Rel SameTree) ProgramError.SameElsewhere (readProgram source)
      (readProgram source') := by
  have hparse := parse_together hwords
  simp only [readProgram, h, h']
  generalize Grammar.parse tokens = x at hparse ⊢
  generalize Grammar.parse tokens' = y at hparse ⊢
  cases hparse with
  | error herror => exact .error (.parse herror)
  | ok htree => exact .ok htree

/-- Such trees have the same type. -/
theorem checkProgram_together
    (h : Together (Option.Rel SameTree) ProgramError.SameElsewhere (readProgram source)
      (readProgram source')) :
    Together (Option.Rel fun p p' => SameTree p.1 p'.1 ∧ p.2 = p'.2) ProgramError.SameElsewhere
      (checkProgram source) (checkProgram source') := by
  unfold checkProgram
  generalize readProgram source = x at h ⊢
  generalize readProgram source' = y at h ⊢
  cases h with
  | error herror => exact .error herror
  | ok htree =>
    cases htree with
    | none => exact .ok .none
    | @some tree tree' hsame =>
      have htype := hsame.typeOf
      simp only
      generalize Typing.typeOf tree = x at htype ⊢
      generalize Typing.typeOf tree' = y at htype ⊢
      cases htype with
      | error herror => exact .error (.type herror)
      | ok hty => exact .ok (.some ⟨hsame, hty⟩)

/-- Their code has the same listing, because locations are not shown. -/
theorem compile_together
    (h : Together (Option.Rel fun p p' => SameTree p.1 p'.1 ∧ p.2 = p'.2)
      ProgramError.SameElsewhere (checkProgram source) (checkProgram source')) :
    Together (fun c c' => c.ty = c'.ty ∧ listing c.code = listing c'.code)
      ProgramError.SameElsewhere (compile source) (compile source') := by
  unfold compile
  generalize checkProgram source = x at h ⊢
  generalize checkProgram source' = y at h ⊢
  cases h with
  | error herror => exact .error herror
  | ok hchecked =>
    cases hchecked with
    | none => exact .ok ⟨rfl, rfl⟩
    | @some p p' hsame =>
      obtain ⟨tree, ty⟩ := p
      obtain ⟨tree', ty'⟩ := p'
      obtain ⟨hsame, rfl⟩ := hsame
      have hcode := hsame.generate ty
      simp only
      generalize Lowering.generate reservedNames tree ty = x at hcode ⊢
      generalize Lowering.generate reservedNames tree' ty = y at hcode ⊢
      cases hcode with
      | error herror => exact .error (.lowering herror)
      | @ok code code' hcode =>
        -- the validator finds the same in both, at different places
        have hproblems : (Validity.problems code reservedNames).map (Problem.move Location.forget)
            = (Validity.problems code' reservedNames).map (Problem.move Location.forget) := by
          rw [← Validity.problems_move, ← Validity.problems_move, hcode]
        have hlisting := congrArg listing hcode
        rw [listing_move, listing_move] at hlisting
        simp only
        rcases hleft : Validity.problems code reservedNames with _ | ⟨p, ps⟩ <;>
          rcases hright : Validity.problems code' reservedNames with _ | ⟨p', ps'⟩ <;>
          rw [hleft, hright] at hproblems
        · exact .ok ⟨rfl, hlisting⟩
        · contradiction
        · contradiction
        · exact .error (.malformed hproblems)

/-- They run in the same way. -/
theorem run_together
    (h : Together (Option.Rel fun p p' => SameTree p.1 p'.1 ∧ p.2 = p'.2)
      ProgramError.SameElsewhere (checkProgram source) (checkProgram source')) (output : Output) :
    Together Eq ProgramError.SameElsewhere (run source output).1 (run source' output).1 ∧
      (run source output).2 = (run source' output).2 := by
  unfold run
  generalize checkProgram source = x at h ⊢
  generalize checkProgram source' = y at h ⊢
  cases h with
  | error herror => exact ⟨.error herror, rfl⟩
  | ok hchecked =>
    cases hchecked with
    | none => exact ⟨.ok rfl, rfl⟩
    | @some p p' hsame =>
      obtain ⟨hvalue, houtput⟩ := hsame.1.interpret output
      simp only
      generalize Eval.interpret p.1 output = x at hvalue houtput ⊢
      generalize Eval.interpret p'.1 output = y at hvalue houtput ⊢
      obtain ⟨x, after⟩ := x
      obtain ⟨y, after'⟩ := y
      simp only at hvalue houtput
      cases hvalue with
      | ok heq => exact ⟨.ok heq, houtput⟩
      | error herror => exact ⟨.error (.runtime herror), houtput⟩

/-- Two texts whose tokens have the same kinds and the same spellings mean the same. -/
theorem meaning_of_words (h : tokenize source = .ok tokens) (h' : tokenize source' = .ok tokens')
    (hwords : tokens.map (fun t => (t.kind, t.text)) = tokens'.map fun t => (t.kind, t.text)) :
    Together (fun c c' => c.ty = c'.ty ∧ listing c.code = listing c'.code)
      ProgramError.SameElsewhere (compile source) (compile source') ∧
    ∀ output,
      Together Eq ProgramError.SameElsewhere (run source output).1 (run source' output).1 ∧
        (run source output).2 = (run source' output).2 :=
  have hchecked := checkProgram_together (readProgram_together h h' hwords)
  ⟨compile_together hchecked, run_together hchecked⟩

/-- A quotient in one line, and in two with a comment in between: both compile, and both stop at
    the operator, wherever it stands. -/
theorem meaning_of_words_quotient :
    Together (fun c c' => c.ty = c'.ty ∧ listing c.code = listing c'.code)
      ProgramError.SameElsewhere (compile "7/0") (compile "7 # by\n/ 0") ∧
    Together Eq ProgramError.SameElsewhere (run "7/0" {}).1 (run "7 # by\n/ 0" {}).1 ∧
    (run "7/0" {}).1 = .error (.runtime (.fault .divisionByZero (.known ⟨1, 2⟩))) ∧
    (run "7 # by\n/ 0" {}).1 = .error (.runtime (.fault .divisionByZero (.known ⟨2, 1⟩))) := by
  have hline : tokenize "7/0" = .ok [⟨.integer, "7", .known ⟨1, 1⟩⟩,
      ⟨.operator, "/", .known ⟨1, 2⟩⟩, ⟨.integer, "0", .known ⟨1, 3⟩⟩] := by cbv
  have hlines : tokenize "7 # by\n/ 0" = .ok [⟨.integer, "7", .known ⟨1, 1⟩⟩,
      ⟨.operator, "/", .known ⟨2, 1⟩⟩, ⟨.integer, "0", .known ⟨2, 3⟩⟩] := by cbv
  obtain ⟨hcompile, hrun⟩ := meaning_of_words hline hlines rfl
  exact ⟨hcompile, (hrun {}).1, by cbv, by cbv⟩

end Words

end ExprLang
