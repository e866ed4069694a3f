/-
  CHECKED CODE: every expression that has a type has code.

  Lowering fails only at a name that has no variable, or at a target that cannot be assigned to.
  `Spans Γ scopes` says that every name with a type has a variable, and that the two comparisons
  have one although they have no type.  Then each rule of typing is matched by a rule of lowering
  (`lowers_of_hasType`).

  Two more things are seen on the way.  The names in scope are the same behind a value as in
  front of it, and only an expression of type unit leaves its value in the variable `unit`; so
  when lowering merges the branches of a conditional, looking at that variable is as good as
  looking at the type.
-/
import ExprLang.Proofs.DraftInvariants
import ExprLang.Proofs.TypingRules

namespace ExprLang.Lowering

open Draft Typing

/-- Every name with a type has a variable of its own, and so have the comparisons. -/
structure Spans (Γ : Scopes Ty) (scopes : Scopes Var) : Prop where
  typed : ∀ n ty, Γ.lookup n = some ty → ∃ x, scopes.lookup n = some x ∧ x ≠ .unit
  comparison : ∀ op, op = "==" ∨ op = "!=" → ∃ x, scopes.lookup op = some x

/-- A new scope adds neither types nor variables. -/
theorem Spans.push {Γ : Scopes Ty} {scopes : Scopes Var} (h : Spans Γ scopes) :
    Spans Γ.push scopes.push := ⟨h.typed, h.comparison⟩

/-- A declared name gets its type and its variable together. -/
theorem Spans.define {Γ : Scopes Ty} {scopes : Scopes Var} (h : Spans Γ scopes) (n : String)
    (ty : Ty) {x : Var} (hx : x ≠ .unit) : Spans (Γ.define n ty) (scopes.define n x) where
  typed m t ht := by
    rw [Scopes.lookup_define] at ht ⊢
    split
    · exact ⟨x, rfl, hx⟩
    · rename_i hne
      rw [if_neg hne] at ht
      exact h.typed m t ht
  comparison op hop := by
    rw [Scopes.lookup_define]
    split
    · exact ⟨x, rfl⟩
    · exact h.comparison op hop

/-- A new variable is never the one for "no value". -/
theorem next_ne_unit {d : Draft} (h : d.Tidy) : d.next ≠ .unit := fun heq =>
  d.next_not_reserved (heq ▸ h.unit)

/-- Any operand can be settled. -/
theorem settles_exists (x : Var) (overwritten : Bool) (loc : Location) (d : Draft) :
    ∃ y d', Settles x overwritten loc d y d' ∧ d'.scopes = d.scopes := by
  by_cases hcopy : x ∈ d.declared ∧ overwritten = true
  · exact ⟨_, _, .copy hcopy.1 hcopy.2, rfl⟩
  · exact ⟨_, _, .keep hcopy, rfl⟩

/-- An operator whose operands have code has code itself. -/
theorem operation_exists {loc : Location} {op : String} {left right : Expr} {d : Draft}
    {callee : Var} (hassign : op ≠ "=") (hlogic : ¬(op = "and" ∨ op = "or"))
    (hcallee : d.scopes.lookup op = some callee) (h : d.Tidy)
    (hleft : ∃ x d₁, Lowers left d x d₁ ∧ d₁.scopes = d.scopes)
    (hright : ∀ d₁, d₁.Tidy → d₁.scopes = d.scopes →
      ∃ y d₂, Lowers right d₁ y d₂ ∧ d₂.scopes = d₁.scopes) :
    ∃ x d', Lowers (.binary loc op left right) d x d' ∧ d'.scopes = d.scopes ∧ x ≠ .unit := by
  obtain ⟨x, d₁, hlowers₁, hscopes₁⟩ := hleft
  obtain ⟨h₁, -, hx⟩ := tidy_of_lowers hlowers₁ h
  obtain ⟨x', d₂, hsettle, hscopes₂⟩ := settles_exists x (assigns right) left.location d₁
  have h₂ := (tidy_of_settles hsettle h₁ hx).1
  obtain ⟨y, d₃, hlowers₃, hscopes₃⟩ := hright d₂ h₂ (hscopes₂.trans hscopes₁)
  have h₃ := (tidy_of_lowers hlowers₃ h₂).1
  exact ⟨_, _, .operation hassign hlogic hcallee hlowers₁ hsettle hlowers₃,
    (hscopes₃.trans hscopes₂).trans hscopes₁, next_ne_unit h₃⟩

mutual

/-- An expression with a type has code. -/
theorem lowers_of_hasType {Γ : Scopes Ty} {e : Expr} {ty : Ty} {d : Draft} :
    HasType Γ e ty → Spans Γ d.scopes → d.Tidy →
      ∃ x d', Lowers e d x d' ∧ d'.scopes = d.scopes ∧ (x = .unit → ty = .unit)
  | .int, _, h => ⟨_, _, .int, rfl, fun heq => absurd heq (next_ne_unit h)⟩
  | .bool, _, h => ⟨_, _, .bool, rfl, fun heq => absurd heq (next_ne_unit h)⟩
  | .unit, _, _ => ⟨_, _, .unit, rfl, fun _ => rfl⟩
  | .name _ hbound, hspans, _ => by
    obtain ⟨x, hx, hvalue⟩ := hspans.typed _ _ hbound
    exact ⟨x, d, .name hx, rfl, fun heq => absurd heq hvalue⟩
  | .unary hbound hoperand, hspans, h => by
    obtain ⟨callee, hcallee, -⟩ := hspans.typed _ _ hbound
    obtain ⟨x, d₁, hlowers, hscopes, -⟩ := lowers_of_hasType hoperand hspans h
    have h₁ := (tidy_of_lowers hlowers h).1
    exact ⟨_, _, .unary hcallee hlowers, hscopes, fun heq => absurd heq (next_ne_unit h₁)⟩
  | .assign _ hbound hright, hspans, h => by
    obtain ⟨cell, hcell, hvalue⟩ := hspans.typed _ _ hbound
    obtain ⟨x, d₁, hlowers, hscopes, -⟩ := lowers_of_hasType hright hspans h
    exact ⟨_, _, .assign hcell hlowers, hscopes, fun heq => absurd heq hvalue⟩
  | .logic hop hleft hright, hspans, h => by
    obtain ⟨x, d₁, hlowers₁, hscopes₁, -⟩ := lowers_of_hasType hleft hspans h
    obtain ⟨h₁, -, hx⟩ := tidy_of_lowers hlowers₁ h
    obtain ⟨y, d₂, hlowers₂, hscopes₂, -⟩ := lowers_of_hasType hright (hscopes₁ ▸ hspans)
      ((((h₁.withLabels 3).emit_logicBranch hx _ _ _).grown).emit_label _)
    exact ⟨_, _, .logic hop hlowers₁ rfl rfl rfl hlowers₂ rfl, hscopes₂.trans hscopes₁,
      fun heq => absurd heq (next_ne_unit h₁)⟩
  | .compare hop hleft hright, hspans, h => by
    -- comparisons have no type in the scopes, but they have a variable
    obtain ⟨callee, hcallee⟩ := hspans.comparison _ hop
    obtain ⟨y, d₁, hlowers₁, hscopes₁, -⟩ := lowers_of_hasType hleft hspans h
    obtain ⟨x, d', hlowers, hscopes, hvalue⟩ := operation_exists (ne_assign_of_compare hop)
      (not_logic_of_compare hop) hcallee h ⟨y, d₁, hlowers₁, hscopes₁⟩ fun d₂ h₂ hscopes₂ => by
        obtain ⟨z, d₃, hlowers₃, hscopes₃, -⟩ := lowers_of_hasType hright (hscopes₂ ▸ hspans) h₂
        exact ⟨z, d₃, hlowers₃, hscopes₃⟩
    exact ⟨x, d', hlowers, hscopes, fun heq => absurd heq hvalue⟩
  | .binary hassign hlogic hbound hleft hright, hspans, h => by
    obtain ⟨callee, hcallee, -⟩ := hspans.typed _ _ hbound
    obtain ⟨y, d₁, hlowers₁, hscopes₁, -⟩ := lowers_of_hasType hleft hspans h
    obtain ⟨x, d', hlowers, hscopes, hvalue⟩ := operation_exists hassign hlogic hcallee h
      ⟨y, d₁, hlowers₁, hscopes₁⟩ fun d₂ h₂ hscopes₂ => by
        obtain ⟨z, d₃, hlowers₃, hscopes₃, -⟩ := lowers_of_hasType hright (hscopes₂ ▸ hspans) h₂
        exact ⟨z, d₃, hlowers₃, hscopes₃⟩
    exact ⟨x, d', hlowers, hscopes, fun heq => absurd heq hvalue⟩
  | .ifThen hcondition hthen, hspans, h => by
    obtain ⟨x, d₁, hlowers₁, hscopes₁, -⟩ := lowers_of_hasType hcondition hspans h
    obtain ⟨h₁, -, hx⟩ := tidy_of_lowers hlowers₁ h
    obtain ⟨y, d₂, hlowers₂, hscopes₂, -⟩ := lowers_of_hasType hthen (hscopes₁ ▸ hspans)
      (((h₁.withLabels 2).emit_branch hx _ _).emit_label _)
    exact ⟨_, _, .ifThen hlowers₁ rfl rfl hlowers₂, hscopes₂.trans hscopes₁, fun _ => rfl⟩
  | @HasType.ifElse _ loc _ _ _ _ hcondition hthen helse, hspans, h => by
    obtain ⟨x, d₁, hlowers₁, hscopes₁, -⟩ := lowers_of_hasType hcondition hspans h
    obtain ⟨h₁, -, hx⟩ := tidy_of_lowers hlowers₁ h
    have hopen : (((d₁.withLabels 3).emit (.branch x (.numbered "then" (d₁.labels + 1))
        (.numbered "else" (d₁.labels + 2))) loc).emit
        (.label (.numbered "then" (d₁.labels + 1))) loc).Tidy :=
      ((h₁.withLabels 3).emit_branch hx _ _).emit_label _
    obtain ⟨y, d₂, hlowers₂, hscopes₂, hunit⟩ := lowers_of_hasType hthen (hscopes₁ ▸ hspans) hopen
    obtain ⟨h₂, -, hy⟩ := tidy_of_lowers hlowers₂ hopen
    have hspans₂ : Spans Γ d₂.scopes := by
      rw [hscopes₂]
      exact hscopes₁ ▸ hspans
    by_cases hvalue : y = .unit
    · -- the branches have no value to merge
      subst hvalue
      obtain ⟨z, d₃, hlowers₃, hscopes₃, -⟩ :=
        lowers_of_hasType helse (by exact hspans₂) ((h₂.emit_jump _).emit_label _)
      exact ⟨_, _, .ifElseUnit hlowers₁ rfl rfl rfl hlowers₂ hlowers₃,
        (hscopes₃.trans hscopes₂).trans hscopes₁, fun _ => hunit rfl⟩
    · obtain ⟨z, d₃, hlowers₃, hscopes₃, -⟩ :=
        lowers_of_hasType helse (by exact hspans₂) (((h₂.emitNew_copy hy).emit_jump _).emit_label _)
      exact ⟨_, _, .ifElse hlowers₁ rfl rfl rfl hlowers₂ hvalue hlowers₃,
        (hscopes₃.trans hscopes₂).trans hscopes₁, fun heq => absurd heq (next_ne_unit h₂)⟩
  | @HasType.call _ _ function arguments _ _ hfunction harguments, hspans, h => by
    obtain ⟨callee, d₁, hlowers₁, hscopes₁, -⟩ := lowers_of_hasType hfunction hspans h
    obtain ⟨h₁, -, hcallee⟩ := tidy_of_lowers hlowers₁ h
    obtain ⟨callee', d₂, hsettle, hscopes₂⟩ :=
      settles_exists callee (assignsAny arguments) function.location d₁
    have h₂ := (tidy_of_settles hsettle h₁ hcallee).1
    obtain ⟨xs, d₃, hlowers₃, hscopes₃⟩ :=
      lowersAll_of_haveTypes harguments (hscopes₂.trans hscopes₁ ▸ hspans) h₂
    have h₃ := (tidy_of_lowersAll hlowers₃ h₂).1
    exact ⟨_, _, .call hlowers₁ hsettle hlowers₃, (hscopes₃.trans hscopes₂).trans hscopes₁,
      fun heq => absurd heq (next_ne_unit h₃)⟩
  | .block hbody, hspans, h => by
    obtain ⟨x, d₁, hlowers, hscopes, hunit⟩ := lowersBody_of_bodyHasType hbody hspans.push h.push
      (Nat.succ_pos _) fun _ => rfl
    exact ⟨x, d₁.pop, .block hlowers, hscopes, hunit⟩

/-- Arguments that have types are lowered. -/
theorem lowersAll_of_haveTypes {Γ : Scopes Ty} {es : List Expr} {types : List Ty} {d : Draft} :
    HaveTypes Γ es types → Spans Γ d.scopes → d.Tidy →
      ∃ xs d', LowersAll es d xs d' ∧ d'.scopes = d.scopes
  | .nil, _, _ => ⟨[], d, .nil, rfl⟩
  | @HaveTypes.cons _ e rest _ _ hfirst hrest, hspans, h => by
    obtain ⟨x, d₁, hlowers₁, hscopes₁, -⟩ := lowers_of_hasType hfirst hspans h
    obtain ⟨h₁, -, hx⟩ := tidy_of_lowers hlowers₁ h
    obtain ⟨x', d₂, hsettle, hscopes₂⟩ := settles_exists x (assignsAny rest) e.location d₁
    have h₂ := (tidy_of_settles hsettle h₁ hx).1
    obtain ⟨xs, d₃, hlowers₃, hscopes₃⟩ :=
      lowersAll_of_haveTypes hrest (hscopes₂.trans hscopes₁ ▸ hspans) h₂
    exact ⟨_, _, .cons hlowers₁ hsettle hlowers₃, (hscopes₃.trans hscopes₂).trans hscopes₁⟩

/-- Statements change the innermost scope only. -/
theorem lowersBody_of_bodyHasType {Γ : Scopes Ty} {es : List Expr} {last ty : Ty} {x : Var}
    {d : Draft} :
    BodyHasType Γ last es ty → Spans Γ d.scopes → d.Tidy → 0 < d.scopes.depth →
      (x = .unit → last = .unit) →
      ∃ y d', LowersBody x es d y d' ∧ d'.scopes.pop = d.scopes.pop ∧ (y = .unit → ty = .unit)
  | .nil, _, _, _, hlast => ⟨x, d, .nil, rfl, hlast⟩
  | @BodyHasType.declare _ _ loc n _ _ ty' _ _ hvalue hrest, hspans, h, hdepth, _ => by
    obtain ⟨y, d₁, hlowers₁, hscopes₁, -⟩ := lowers_of_hasType hvalue hspans h
    obtain ⟨h₁, -, hy⟩ := tidy_of_lowers hlowers₁ h
    have hvar : Lowers (.var loc n _) d d₁.next _ := .var hlowers₁
    have hscopes : ((d₁.emitNew (.copy y) loc).declare n d₁.next).scopes
        = d.scopes.define n d₁.next := by
      rw [← hscopes₁]
      rfl
    have hspans₁ : Spans (Γ.define n ty')
        ((d₁.emitNew (.copy y) loc).declare n d₁.next).scopes := by
      rw [hscopes]
      exact hspans.define n ty' (next_ne_unit h₁)
    have hdepth₁ : 0 < ((d₁.emitNew (.copy y) loc).declare n d₁.next).scopes.depth := by
      rw [hscopes, Scopes.depth_define]
      exact hdepth
    obtain ⟨z, d₂, hlowers₂, hscopes₂, hunit⟩ := lowersBody_of_bodyHasType hrest hspans₁
      (h₁.declareNew hy n) hdepth₁ fun heq => absurd heq (next_ne_unit h₁)
    refine ⟨z, d₂, .cons hvar hlowers₂, ?_, hunit⟩
    rw [hscopes₂, hscopes, Scopes.pop_define hdepth]
  | .run hfirst hrest, hspans, h, hdepth, _ => by
    obtain ⟨y, d₁, hlowers₁, hscopes₁, hunit⟩ := lowers_of_hasType hfirst hspans h
    have h₁ := (tidy_of_lowers hlowers₁ h).1
    obtain ⟨z, d₂, hlowers₂, hscopes₂, hunit'⟩ := lowersBody_of_bodyHasType hrest
      (hscopes₁ ▸ hspans) h₁ (hscopes₁ ▸ hdepth) hunit
    exact ⟨z, d₂, .cons hlowers₁ hlowers₂, hscopes₂.trans (by rw [hscopes₁]), hunit'⟩

end

/-! ## What the code of an expression with a type is like -/

section

variable {Γ : Scopes Ty} {d d' : Draft} {x : Var} {ty : Ty}

/-- The names in scope are the same behind a value as in front of it. -/
theorem scopes_of_lowers {e : Expr} (he : HasType Γ e ty) (hspans : Spans Γ d.scopes)
    (h : d.Tidy) (hlowers : Lowers e d x d') : d'.scopes = d.scopes := by
  obtain ⟨y, d₁, hlowers₁, hscopes, -⟩ := lowers_of_hasType he hspans h
  rw [(hlowers.deterministic hlowers₁).2, hscopes]

/-- Lowering arguments leaves the names in scope as they were. -/
theorem scopes_of_lowersAll {es : List Expr} {types : List Ty} {xs : List Var}
    (hes : HaveTypes Γ es types) (hspans : Spans Γ d.scopes) (h : d.Tidy)
    (hlowers : LowersAll es d xs d') : d'.scopes = d.scopes := by
  obtain ⟨ys, d₁, hlowers₁, hscopes⟩ := lowersAll_of_haveTypes hes hspans h
  rw [(hlowers.deterministic hlowers₁).2, hscopes]

/-- Only an expression of type unit leaves its value in the variable `unit`. -/
theorem unit_of_lowers {e : Expr} (he : HasType Γ e ty) (hspans : Spans Γ d.scopes) (h : d.Tidy)
    (hlowers : Lowers e d .unit d') : ty = .unit := by
  obtain ⟨y, d₁, hlowers₁, -, hunit⟩ := lowers_of_hasType he hspans h
  exact hunit (hlowers.deterministic hlowers₁).1.symm

end

/-! ## From one draft to the next -/

/-- What is known of a draft and of the types in scope wherever an expression is about to be
    lowered. -/
structure Ready (Γ : Scopes Ty) (d : Draft) : Prop where
  tidy : d.Tidy
  spans : Spans Γ d.scopes

namespace Ready

variable {Γ : Scopes Ty} {d d' : Draft} {x y : Var} {loc : Location}

/-- Behind a value everything is as it was in front of it, and the value may be read. -/
theorem lowers (h : Ready Γ d) {e : Expr} {ty : Ty} (he : HasType Γ e ty)
    (hlowers : Lowers e d x d') :
    Ready Γ d' ∧ d.Extends d' ∧ d'.scopes = d.scopes ∧ d'.Available x := by
  obtain ⟨htidy, hext, hx⟩ := tidy_of_lowers hlowers h.tidy
  have hscopes := scopes_of_lowers he h.spans h.tidy hlowers
  refine ⟨⟨htidy, ?_⟩, hext, hscopes, hx⟩
  rw [hscopes]
  exact h.spans

/-- Behind the arguments everything is ready, and each of them may be read. -/
theorem lowersAll (h : Ready Γ d) {es : List Expr} {types : List Ty} {xs : List Var}
    (hes : HaveTypes Γ es types) (hlowers : LowersAll es d xs d') :
    Ready Γ d' ∧ d.Extends d' ∧ d'.scopes = d.scopes ∧ ∀ x ∈ xs, d'.Available x := by
  obtain ⟨htidy, hext, hxs⟩ := tidy_of_lowersAll hlowers h.tidy
  have hscopes := scopes_of_lowersAll hes h.spans h.tidy hlowers
  refine ⟨⟨htidy, ?_⟩, hext, hscopes, hxs⟩
  rw [hscopes]
  exact h.spans

/-- Copying an operand aside leaves everything ready. -/
theorem settles (h : Ready Γ d) {overwritten : Bool} (hsettle : Settles x overwritten loc d y d')
    (hx : d.Available x) :
    Ready Γ d' ∧ d.Extends d' ∧ d'.scopes = d.scopes ∧ d'.Available y := by
  obtain ⟨htidy, hext, hy⟩ := tidy_of_settles hsettle h.tidy hx
  have hscopes : d'.scopes = d.scopes := by cases hsettle <;> rfl
  refine ⟨⟨htidy, ?_⟩, hext, hscopes, hy⟩
  rw [hscopes]
  exact h.spans

/-- The draft in which the branch after a jump is written. -/
theorem branched (h : Ready Γ d) (hx : d.Available x) (k : Nat) (l l' l'' : Label) :
    Ready Γ (((d.withLabels k).emit (.branch x l l') loc).emit (.label l'') loc) :=
  ⟨((h.tidy.withLabels k).emit_branch hx l l').emit_label l'', h.spans⟩

/-- The draft in which the right side of `and` and `or` is written. -/
theorem logic (h : Ready Γ d) (hx : d.Available x) (op : String) (l l' l'' : Label) :
    Ready Γ (((d.withLabels 3).emit (logicBranch op x l l') loc).grown.emit (.label l'') loc) :=
  ⟨((h.tidy.withLabels 3).emit_logicBranch hx op l l').grown.emit_label l'', h.spans⟩

/-- The draft in which the other branch is written. -/
theorem jumped (h : Ready Γ d) (l l' : Label) :
    Ready Γ ((d.emit (.jump l) loc).emit (.label l') loc) :=
  ⟨(h.tidy.emit_jump l).emit_label l', h.spans⟩

/-- A copy to a new variable leaves everything ready. -/
theorem copied (h : Ready Γ d) (hx : d.Available x) : Ready Γ (d.emitNew (.copy x) loc) :=
  ⟨h.tidy.emitNew_copy hx, h.spans⟩

/-- The draft behind a declaration. -/
theorem declares (h : Ready Γ d) (hx : d.Available x) (n : String) (ty : Ty) :
    Ready (Γ.define n ty) ((d.emitNew (.copy x) loc).declare n d.next) :=
  ⟨h.tidy.declareNew hx n, h.spans.define n ty (next_ne_unit h.tidy)⟩

/-- Inside a new scope everything is ready. -/
theorem push (h : Ready Γ d) : Ready Γ.push d.push := ⟨h.tidy.push, h.spans.push⟩

end Ready

/-! ## Whole programs -/

/-- A reserved name has the variable of that name. -/
theorem lookup_start {reserved : List String} {n : String} (hn : n ∈ reserved) :
    (Draft.start reserved).scopes.lookup n = some ⟨n⟩ := by
  have hroot : (Draft.start reserved).scopes.depth = 0 := Scopes.depth_ofList _
  rw [Scopes.lookup_of_depth_eq_zero hroot]
  exact binding_start.2 ⟨rfl, hn, rfl⟩

theorem name_mem_reservedNames (b : Builtin) : b.name ∈ reservedNames :=
  List.mem_cons_of_mem _ (List.mem_map_of_mem b.mem_all)

theorem name_ne_unitName (b : Builtin) : b.name ≠ unitName := by
  cases b <;> decide

/-- Every builtin with a type has its variable. -/
theorem spans_root : Spans rootScopes (Draft.start reservedNames).scopes where
  typed n ty hbound := by
    obtain ⟨b, rfl, -⟩ := lookup_rootScopes.1 hbound
    refine ⟨_, lookup_start (name_mem_reservedNames b), fun heq => name_ne_unitName b ?_⟩
    exact Var.mk.inj heq
  comparison op hop := by
    rcases hop with rfl | rfl
    · exact ⟨_, lookup_start (name_mem_reservedNames .equal)⟩
    · exact ⟨_, lookup_start (name_mem_reservedNames .notEqual)⟩

/-- Where a program starts, everything is ready for it. -/
theorem ready_start : Ready rootScopes (.start reservedNames) :=
  ⟨tidy_start reservedNames, spans_root⟩

/-- A program with a type has code. -/
theorem lowersProgram_of_hasType {program : Expr} {ty : Ty} (h : HasType rootScopes program ty) :
    ∃ d, LowersProgram program ty (.start reservedNames) d := by
  obtain ⟨x, d, hlowers, hscopes, -⟩ := lowers_of_hasType h spans_root (tidy_start reservedNames)
  have hprinter (b : Builtin) : d.scopes.lookup b.name = some ⟨b.name⟩ := by
    rw [hscopes]
    exact lookup_start (name_mem_reservedNames b)
  cases ty with
  | int => exact ⟨_, .prints rfl hlowers (hprinter .printInt)⟩
  | bool => exact ⟨_, .prints rfl hlowers (hprinter .printBool)⟩
  | unit => exact ⟨_, .silent rfl hlowers⟩
  | func => exact ⟨_, .silent rfl hlowers⟩

end ExprLang.Lowering
