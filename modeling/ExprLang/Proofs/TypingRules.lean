/-
  TYPING RULES: what it means for a program to have a type.

  The checker walks a tree and changes a chain of scopes on the way.  `HasType` says the same
  without a state: the scopes are given, a declaration adds to them for the statements behind it,
  and everything else leaves them as they are.  Its rules are those for trees that the grammar
  builds, so every name in them is one that a program can write.

  `hasType_of_check` turns a successful check into a derivation, and says that the check of a
  value has left the scopes untouched.  What a program means and what code it has is then proved
  by induction on derivations.
-/
import ExprLang.Proofs.Effects
import ExprLang.Proofs.ScopeLevels
import ExprLang.Proofs.SourceNames

namespace ExprLang.Typing

/-! ## The rules -/

mutual

/-- An expression has a type, given the types of the names in scope. -/
inductive HasType : Scopes Ty → Expr → Ty → Prop
  | int {Γ loc n} : HasType Γ (.int loc n) .int
  | bool {Γ loc b} : HasType Γ (.bool loc b) .bool
  | unit {Γ loc} : HasType Γ (.unit loc) .unit
  | name {Γ loc n ty} (hname : SourceName n) (hbound : Γ.lookup n = some ty) :
      HasType Γ (.name loc n) ty
  | unary {Γ loc op operand param result}
      (hbound : Γ.lookup (Expr.unaryName op) = some (.func [param] result))
      (hoperand : HasType Γ operand param) : HasType Γ (.unary loc op operand) result
  | assign {Γ loc nameLoc n right ty} (hname : SourceName n) (hbound : Γ.lookup n = some ty)
      (hright : HasType Γ right ty) : HasType Γ (.binary loc "=" (.name nameLoc n) right) ty
  | logic {Γ loc op left right} (hop : op = "and" ∨ op = "or") (hleft : HasType Γ left .bool)
      (hright : HasType Γ right .bool) : HasType Γ (.binary loc op left right) .bool
  | compare {Γ loc op left right ty} (hop : op = "==" ∨ op = "!=") (hleft : HasType Γ left ty)
      (hright : HasType Γ right ty) : HasType Γ (.binary loc op left right) .bool
  | binary {Γ loc op left right leftParam rightParam result} (hassign : op ≠ "=")
      (hlogic : ¬(op = "and" ∨ op = "or"))
      (hbound : Γ.lookup op = some (.func [leftParam, rightParam] result))
      (hleft : HasType Γ left leftParam) (hright : HasType Γ right rightParam) :
      HasType Γ (.binary loc op left right) result
  | ifThen {Γ loc condition thenBranch} (hcondition : HasType Γ condition .bool)
      (hthen : HasType Γ thenBranch .unit) : HasType Γ (.ifThen loc condition thenBranch) .unit
  | ifElse {Γ loc condition thenBranch elseBranch ty} (hcondition : HasType Γ condition .bool)
      (hthen : HasType Γ thenBranch ty) (helse : HasType Γ elseBranch ty) :
      HasType Γ (.ifElse loc condition thenBranch elseBranch) ty
  | call {Γ loc function arguments params result}
      (hfunction : HasType Γ function (.func params result))
      (harguments : HaveTypes Γ arguments params) : HasType Γ (.call loc function arguments) result
  | block {Γ loc statements ty} (hbody : BodyHasType Γ.push .unit statements ty) :
      HasType Γ (.block loc statements) ty

/-- Expressions have the types of a list, one by one. -/
inductive HaveTypes : Scopes Ty → List Expr → List Ty → Prop
  | nil {Γ} : HaveTypes Γ [] []
  | cons {Γ e rest ty types} (hfirst : HasType Γ e ty) (hrest : HaveTypes Γ rest types) :
      HaveTypes Γ (e :: rest) (ty :: types)

/-- The last of some statements has a type; without any it is the type given. -/
inductive BodyHasType : Scopes Ty → Ty → List Expr → Ty → Prop
  | nil {Γ last} : BodyHasType Γ last [] last
  | declare {Γ last loc n value rest ty result} (hname : SourceName n)
      (hvalue : HasType Γ value ty) (hrest : BodyHasType (Γ.define n ty) ty rest result) :
      BodyHasType Γ last (.var loc n value :: rest) result
  | run {Γ last e rest ty result} (hfirst : HasType Γ e ty)
      (hrest : BodyHasType Γ ty rest result) : BodyHasType Γ last (e :: rest) result

end

/-! ## The operators that have rules of their own -/

section

variable {op : String}

/-- This and the next two tell the operators apart that have rules of their own. -/
theorem ne_assign_of_logic (hop : op = "and" ∨ op = "or") : op ≠ "=" := by
  rcases hop with rfl | rfl <;> decide

theorem ne_assign_of_compare (hop : op = "==" ∨ op = "!=") : op ≠ "=" := by
  rcases hop with rfl | rfl <;> decide

theorem not_logic_of_compare (hop : op = "==" ∨ op = "!=") : ¬(op = "and" ∨ op = "or") := by
  rcases hop with rfl | rfl <;> decide

end

/-! ## Operators mean what they mean at the root -/

/-- The checker starts with every builtin that has a type under its name. -/
theorem binding_rootScopes {n : String} {ty : Ty} :
    rootScopes.binding 0 n = some ty ↔
      ∃ b : Builtin, b.name = n ∧ b.signature? = some ty := by
  have hmem (m : String) (t : Ty) :
      (m, t) ∈ Builtin.all.filterMap (fun b => b.signature?.map fun ty => (b.name, ty)) ↔
        ∃ b : Builtin, b.name = m ∧ b.signature? = some t := by
    simp only [List.mem_filterMap, Option.map_eq_some_iff, Prod.mk.injEq]
    constructor
    · rintro ⟨b, -, _, hsignature, hname, rfl⟩
      exact ⟨b, hname, hsignature⟩
    · rintro ⟨b, hname, hsignature⟩
      exact ⟨b, b.mem_all, t, hsignature, hname, rfl⟩
  rw [rootScopes, Scopes.binding_ofList, hmem]
  intro m t u ht hu
  obtain ⟨a, ha, hta⟩ := (hmem m t).1 ht
  obtain ⟨b, hb, htb⟩ := (hmem m u).1 hu
  obtain rfl := Builtin.name_injective (ha.trans hb.symm)
  exact Option.some.inj (hta.symm.trans htb)

/-- The scope that holds the builtin functions is the outermost one. -/
theorem depth_rootScopes : rootScopes.depth = 0 := Scopes.depth_ofList _

/-- It holds every builtin function that has a signature, and nothing else. -/
theorem lookup_rootScopes {n : String} {ty : Ty} :
    rootScopes.lookup n = some ty ↔ ∃ b : Builtin, b.name = n ∧ b.signature? = some ty := by
  rw [Scopes.lookup_of_depth_eq_zero depth_rootScopes]
  exact binding_rootScopes

/-- What no program can name has the type that it has in the root scope. -/
def Rooted (Γ : Scopes Ty) : Prop := ∀ n, ¬SourceName n → Γ.lookup n = rootScopes.lookup n

/-- Entering a scope hides nothing. -/
theorem Rooted.push {Γ : Scopes Ty} (h : Rooted Γ) : Rooted Γ.push := fun n hn => h n hn

/-- A declaration hides no operator, because no program can write the name of one. -/
theorem Rooted.define {Γ : Scopes Ty} (h : Rooted Γ) {n : String} (hname : SourceName n) (ty : Ty) :
    Rooted (Γ.define n ty) := by
  intro m hm
  have hne : n ≠ m := fun heq => hm (heq ▸ hname)
  rw [Scopes.lookup_define, if_neg hne]
  exact h m hm

/-- The logical operators keep their signatures wherever they are used. -/
theorem Rooted.logic {Γ : Scopes Ty} (h : Rooted Γ) {op : String} (hop : op = "and" ∨ op = "or") :
    Γ.lookup op = some (.func [.bool, .bool] .bool) := by
  rcases hop with rfl | rfl
  · rw [h "and" (by decide)]
    rfl
  · rw [h "or" (by decide)]
    rfl

/-! ## Small steps of the checker -/

/-- This and the next two say when a small step of the checker succeeds; none changes the scopes. -/
theorem lookup_eq_ok {n : String} {loc : Location} {Γ Γ' : Scopes Ty} {ty : Ty} :
    lookup n loc Γ = .ok ty Γ' ↔ Γ.lookup n = some ty ∧ Γ' = Γ := by
  unfold lookup
  rcases Γ.lookup n with _ | found <;> simp [eq_comm]

theorem expect_eq_ok {role : Role} {expected found : Ty} {loc : Location} {Γ Γ' : Scopes Ty}
    {u : Unit} : expect role expected found loc Γ = .ok u Γ' ↔ expected = found ∧ Γ' = Γ := by
  unfold expect
  split
  · simp [pure_eq_ok, *, eq_comm]
  · simp [throw_eq_ok, *]

theorem operatorType_eq_ok {op : String} {loc : Location} {Γ Γ' : Scopes Ty}
    {signature : List Ty × Ty} :
    operatorType op loc Γ = .ok signature Γ' ↔
      Γ.lookup op = some (.func signature.1 signature.2) ∧ Γ' = Γ := by
  obtain ⟨params, result⟩ := signature
  simp only [operatorType, bind_eq_ok, lookup_eq_ok]
  constructor
  · rintro ⟨ty, Γ₁, ⟨hbound, rfl⟩, h⟩
    cases ty with
    | func ps r =>
      simp only [pure_eq_ok, Prod.mk.injEq] at h
      obtain ⟨⟨rfl, rfl⟩, rfl⟩ := h
      exact ⟨hbound, rfl⟩
    | _ => simp [throw_eq_ok] at h
  · rintro ⟨hbound, rfl⟩
    exact ⟨_, _, ⟨hbound, rfl⟩, rfl⟩

/-! ## A checked program has its type -/

mutual

/-- A value that passes the check has the type found, and the scopes are as before. -/
theorem hasType_of_check {Γ Γ' : Scopes Ty} {ty : Ty} :
    (e : Expr) → e.Fits SourceName .value → Rooted Γ → check e Γ = .ok ty Γ' →
      HasType Γ e ty ∧ Γ' = Γ
  | .int _ _, _, _, h => by
    obtain ⟨rfl, rfl⟩ := pure_eq_ok.1 h
    exact ⟨.int, rfl⟩
  | .bool _ _, _, _, h => by
    obtain ⟨rfl, rfl⟩ := pure_eq_ok.1 h
    exact ⟨.bool, rfl⟩
  | .unit _, hfits, _, _ => by simp [Expr.Fits] at hfits
  | .name _ n, hfits, _, h => by
    obtain ⟨hbound, rfl⟩ := lookup_eq_ok.1 h
    exact ⟨.name hfits hbound, rfl⟩
  | .unary loc op operand, hfits, hrooted, h => by
    simp only [check, bind_eq_ok, operatorType_eq_ok] at h
    obtain ⟨operandType, Γ₁, hcheck, ⟨params, result⟩, Γ₂, ⟨hbound, rfl⟩, h⟩ := h
    obtain ⟨hoperand, rfl⟩ := hasType_of_check operand hfits.2 hrooted hcheck
    -- with any other number of parameters the operator is refused
    match params, hbound, h with
    | [param], hbound, h =>
      simp only [bind_eq_ok, expect_eq_ok, pure_eq_ok] at h
      obtain ⟨_, _, ⟨rfl, rfl⟩, rfl, rfl⟩ := h
      exact ⟨.unary hbound hoperand, rfl⟩
    | [], _, h => exact (throw_eq_ok.1 h).elim
    | _ :: _ :: _, _, h => exact (throw_eq_ok.1 h).elim
  | .binary loc op left right, hfits, hrooted, h => by
    obtain ⟨hop, hfitLeft, hfitRight⟩ := hfits
    simp only [check] at h
    split at h
    · -- an assignment
      rename_i hassign
      subst hassign
      split at h
      · rename_i nameLoc n
        simp only [bind_eq_ok, lookup_eq_ok, expect_eq_ok, pure_eq_ok] at h
        obtain ⟨variableType, Γ₁, ⟨hbound, rfl⟩, valueType, Γ₂, hcheck, _, _, ⟨rfl, rfl⟩, rfl,
          rfl⟩ := h
        obtain ⟨hright, rfl⟩ := hasType_of_check right hfitRight hrooted hcheck
        exact ⟨.assign hfitLeft hbound hright, rfl⟩
      · exact (throw_eq_ok.1 h).elim
    · rename_i hassign
      simp only [bind_eq_ok] at h
      obtain ⟨leftType, Γ₁, hcheckLeft, rightType, Γ₂, hcheckRight, h⟩ := h
      obtain ⟨hleft, rfl⟩ := hasType_of_check left hfitLeft hrooted hcheckLeft
      obtain ⟨hright, rfl⟩ := hasType_of_check right hfitRight hrooted hcheckRight
      split at h
      · -- a comparison of any two values of one type
        rename_i hcompare
        split at h
        · rename_i hsame
          subst hsame
          obtain ⟨rfl, rfl⟩ := pure_eq_ok.1 h
          exact ⟨.compare hcompare hleft hright, rfl⟩
        · exact (throw_eq_ok.1 h).elim
      · simp only [bind_eq_ok, operatorType_eq_ok] at h
        obtain ⟨⟨params, result⟩, Γ₃, ⟨hbound, rfl⟩, h⟩ := h
        match params, hbound, h with
        | [leftParam, rightParam], hbound, h =>
          simp only [bind_eq_ok, expect_eq_ok, pure_eq_ok] at h
          obtain ⟨_, _, ⟨rfl, rfl⟩, _, _, ⟨rfl, rfl⟩, rfl, rfl⟩ := h
          by_cases hlogic : op = "and" ∨ op = "or"
          · -- no program can bind these two, so they have their types at the root
            have hroot := hrooted.logic hlogic
            rw [hbound] at hroot
            simp only [Option.some.injEq, Ty.func.injEq, List.cons.injEq] at hroot
            obtain ⟨⟨rfl, rfl, -⟩, rfl⟩ := hroot
            exact ⟨.logic hlogic hleft hright, rfl⟩
          · exact ⟨.binary hassign hlogic hbound hleft hright, rfl⟩
        | [], _, h => exact (throw_eq_ok.1 h).elim
        | [_], _, h => exact (throw_eq_ok.1 h).elim
        | _ :: _ :: _ :: _, _, h => exact (throw_eq_ok.1 h).elim
  | .ifThen _ condition thenBranch, hfits, hrooted, h => by
    simp only [check, bind_eq_ok, expect_eq_ok, pure_eq_ok] at h
    obtain ⟨conditionType, Γ₁, hcheck, _, _, ⟨rfl, rfl⟩, thenType, Γ₂, hcheckThen, _, _,
      ⟨rfl, rfl⟩, rfl, rfl⟩ := h
    obtain ⟨hcondition, rfl⟩ := hasType_of_check condition hfits.1 hrooted hcheck
    obtain ⟨hthen, rfl⟩ := hasType_of_check thenBranch hfits.2 hrooted hcheckThen
    exact ⟨.ifThen hcondition hthen, rfl⟩
  | .ifElse _ condition thenBranch elseBranch, hfits, hrooted, h => by
    simp only [check, bind_eq_ok, expect_eq_ok] at h
    obtain ⟨conditionType, Γ₁, hcheck, _, _, ⟨rfl, rfl⟩, thenType, Γ₂, hcheckThen, elseType, Γ₃,
      hcheckElse, h⟩ := h
    obtain ⟨hcondition, rfl⟩ := hasType_of_check condition hfits.1 hrooted hcheck
    obtain ⟨hthen, rfl⟩ := hasType_of_check thenBranch hfits.2.1 hrooted hcheckThen
    obtain ⟨helse, rfl⟩ := hasType_of_check elseBranch hfits.2.2 hrooted hcheckElse
    -- both branches have one type, which is that of the whole
    split at h
    · rename_i hsame
      subst hsame
      obtain ⟨rfl, rfl⟩ := pure_eq_ok.1 h
      exact ⟨.ifElse hcondition hthen helse, rfl⟩
    · exact (throw_eq_ok.1 h).elim
  | .call _ function arguments, hfits, hrooted, h => by
    simp only [check, bind_eq_ok] at h
    obtain ⟨functionType, Γ₁, hcheck, h⟩ := h
    obtain ⟨hfunction, rfl⟩ := hasType_of_check function hfits.2.1 hrooted hcheck
    cases functionType with
    | func params result =>
      simp only at h
      split at h
      · rename_i hlength
        simp only [bind_eq_ok, pure_eq_ok] at h
        obtain ⟨_, Γ₂, hcheckArguments, rfl, rfl⟩ := h
        obtain ⟨harguments, rfl⟩ :=
          haveTypes_of_check arguments hfits.2.2 hrooted hlength hcheckArguments
        exact ⟨.call hfunction harguments, rfl⟩
      · exact (throw_eq_ok.1 h).elim
    | _ => exact (throw_eq_ok.1 h).elim
  | .var _ _ _, hfits, _, _ => by simp [Expr.Fits] at hfits
  | .block _ statements, hfits, hrooted, h => by
    simp only [check, inScope, within_eq_ok] at h
    obtain ⟨Γ₁, hcheck, rfl⟩ := h
    obtain ⟨hbody, hpop⟩ := bodyHasType_of_check statements .statement hfits
      hrooted.push (Nat.succ_pos _) hcheck
    exact ⟨.block hbody, hpop⟩

/-- Arguments that pass the check have the types of their parameters, one by one. -/
theorem haveTypes_of_check {Γ Γ' : Scopes Ty} {function : String} {number : Nat}
    {params : List Ty} :
    (es : List Expr) → Expr.FitAll SourceName es → Rooted Γ → params.length = es.length →
      checkArguments function number params es Γ = .ok () Γ' → HaveTypes Γ es params ∧ Γ' = Γ
  | [], _, _, hlength, h => by
    obtain rfl := List.length_eq_zero_iff.1 hlength
    obtain ⟨-, rfl⟩ := pure_eq_ok.1 h
    exact ⟨.nil, rfl⟩
  | e :: rest, hfits, hrooted, hlength, h => by
    cases params with
    | nil => contradiction
    | cons param others =>
      simp only [checkArguments, bind_eq_ok, expect_eq_ok] at h
      obtain ⟨found, Γ₁, hcheck, _, _, ⟨rfl, rfl⟩, h⟩ := h
      obtain ⟨hfirst, rfl⟩ := hasType_of_check e hfits.1 hrooted hcheck
      obtain ⟨hrest, rfl⟩ :=
        haveTypes_of_check rest hfits.2 hrooted (Nat.succ.inj hlength) h
      exact ⟨.cons hfirst hrest, rfl⟩

/-- Statements that pass the check change the innermost scope only. -/
theorem bodyHasType_of_check {Γ Γ' : Scopes Ty} {last ty : Ty} :
    (es : List Expr) → (place : Place) → Expr.FitBody SourceName place es → Rooted Γ →
      0 < Γ.depth → checkStatements last es Γ = .ok ty Γ' →
      BodyHasType Γ last es ty ∧ Γ'.pop = Γ.pop
  | [], _, _, _, _, h => by
    obtain ⟨rfl, rfl⟩ := pure_eq_ok.1 h
    exact ⟨.nil, rfl⟩
  | e :: rest, place, hfits, hrooted, hdepth, h => by
    obtain ⟨hfit, hrest⟩ := hfits
    simp only [checkStatements, bind_eq_ok] at h
    obtain ⟨found, Γ₁, hcheck, h⟩ := h
    cases e with
    | var loc n value =>
      simp only [check, bind_eq_ok, pure_eq_ok] at hcheck
      obtain ⟨valueType, Γ₂, hcheckValue, _, _, hdefine, rfl, rfl⟩ := hcheck
      obtain ⟨hvalue, rfl⟩ := hasType_of_check value hfit.2.2 hrooted hcheckValue
      obtain ⟨-, rfl⟩ := EStateM.Result.ok.inj hdefine
      obtain ⟨hbody, hpop⟩ := bodyHasType_of_check rest .ending hrest
        (hrooted.define hfit.2.1 valueType) (by simpa using hdepth) h
      exact ⟨.declare hfit.2.1 hvalue hbody, hpop.trans (Scopes.pop_define hdepth n valueType)⟩
    | unit loc =>
      -- what stands behind the last semicolon of a block
      obtain ⟨rfl, rfl⟩ := pure_eq_ok.1 hcheck
      obtain ⟨hbody, hpop⟩ := bodyHasType_of_check rest .ending hrest hrooted hdepth h
      exact ⟨.run .unit hbody, hpop⟩
    | _ =>
      obtain ⟨hfirst, rfl⟩ := hasType_of_check _ (by exact hfit) hrooted hcheck
      obtain ⟨hbody, hpop⟩ := bodyHasType_of_check rest .ending hrest hrooted hdepth h
      exact ⟨.run hfirst hbody, hpop⟩

end

/-- A program read from a source text that passes the check has the type found. -/
theorem hasType_of_typeOf {source : String} {tree : Expr} {ty : Ty}
    (hread : readProgram source = .ok (some tree)) (htype : typeOf tree = .ok ty) :
    HasType rootScopes tree ty := by
  unfold typeOf at htype
  split at htype
  · rename_i hcheck
    obtain rfl := Except.ok.inj htype
    exact (hasType_of_check tree (fits_of_readProgram hread) (fun _ _ => rfl) hcheck).1
  · contradiction

end ExprLang.Typing
