/-
  BUILTIN WRITES: which programs have code that the validator refuses.

  Code is clean when it writes no reserved variable.  Lowering writes a reserved variable for one
  reason only: an expression assigns to a name that is bound to one, and those are the names that
  no enclosing block has declared.  `Covers` relates the names declared around an expression to
  the variables in scope, and `clean_of_lowers` counts the free writes of an expression against
  its code.

  A program that passes the front end therefore compiles exactly when it assigns to none of the
  builtins.  Otherwise the validator reports each of those assignments, and nothing else.
-/
import ExprLang.Proofs.CheckedCode
import ExprLang.Proofs.CodeShape
import ExprLang.Proofs.FreeUses

namespace ExprLang

/-! ## Clean drafts -/

namespace Draft

/-- Whether the code writes no reserved variable. -/
def Clean (d : Draft) : Prop := ∀ x ∈ d.written, x.name ∉ d.reserved

section

variable {d : Draft} {x y : Var} {action : Action} {loc : Location}

/-- Whether code stays clean is up to the variable that its last instruction writes. -/
theorem clean_emit : (d.emit action loc).Clean ↔
    d.Clean ∧ ∀ x, (⟨action, loc⟩ : Instr).writes = some x → x.name ∉ d.reserved := by
  simp only [Clean, written_emit, List.mem_append, Option.mem_toList, or_imp, forall_and]
  exact Iff.rfl

/-- A copy has to write a variable that is not reserved. -/
@[simp] theorem clean_emit_copy :
    (d.emit (.copy x y) loc).Clean ↔ d.Clean ∧ y.name ∉ d.reserved := by
  simp [clean_emit, Instr.writes]

/-- This and the next ones: control instructions write nothing, and neither do steps that only mint
    or change scopes. -/
@[simp] theorem clean_emit_label {l : Label} : (d.emit (.label l) loc).Clean ↔ d.Clean := by
  simp [clean_emit, Instr.writes]

@[simp] theorem clean_emit_jump {l : Label} : (d.emit (.jump l) loc).Clean ↔ d.Clean := by
  simp [clean_emit, Instr.writes]

@[simp] theorem clean_emit_branch {l l' : Label} :
    (d.emit (.branch x l l') loc).Clean ↔ d.Clean := by
  simp [clean_emit, Instr.writes]

@[simp] theorem clean_emit_logicBranch {op : String} {l l' : Label} :
    (d.emit (Lowering.logicBranch op x l l') loc).Clean ↔ d.Clean := by
  unfold Lowering.logicBranch
  split <;> exact clean_emit_branch

@[simp] theorem clean_grown : d.grown.Clean ↔ d.Clean := Iff.rfl

@[simp] theorem clean_withLabels {k : Nat} : (d.withLabels k).Clean ↔ d.Clean := Iff.rfl

@[simp] theorem clean_declare {n : String} : (d.declare n x).Clean ↔ d.Clean := Iff.rfl

@[simp] theorem clean_push : d.push.Clean ↔ d.Clean := Iff.rfl

@[simp] theorem clean_pop : d.pop.Clean ↔ d.Clean := Iff.rfl

/-- A new variable is not reserved. -/
theorem clean_emitNew {action : Var → Action}
    (hwrites : (⟨action d.next, loc⟩ : Instr).writes = some d.next) :
    (d.emitNew action loc).Clean ↔ d.Clean := by
  rw [emitNew, clean_emit, hwrites, clean_grown]
  refine and_iff_left ?_
  intro x hx
  obtain rfl := Option.some.inj hx
  exact d.next_not_reserved

end

end Draft

/-! ## Free writes and the code of an expression -/

namespace Lowering

open Draft Typing ExprLang.Expr

/-- A settled operand is copied into a new variable, which is never reserved. -/
theorem clean_of_settles {x y : Var} {overwritten : Bool} {loc : Location} {d d' : Draft}
    (hsettle : Settles x overwritten loc d y d') : d'.Clean ↔ d.Clean := by
  cases hsettle with
  | keep => exact Iff.rfl
  | copy => exact clean_emitNew rfl

/-- The names in scope that are not declared have reserved variables. -/
def Covers (declared : List String) (d : Draft) : Prop :=
  ∀ n x, d.scopes.lookup n = some x → (x.name ∈ d.reserved ↔ n ∉ declared)

/-- Which names are declared around is told by the scopes and the reserved names. -/
theorem Covers.congr {declared : List String} {d d' : Draft} (h : Covers declared d)
    (hscopes : d'.scopes = d.scopes) (hreserved : d'.reserved = d.reserved) :
    Covers declared d' := by
  intro n x hx
  rw [hscopes] at hx
  rw [hreserved]
  exact h n x hx

/-- A declaration covers its name from here on. -/
theorem Covers.declareNew {declared : List String} {d : Draft} (h : Covers declared d) (n : String)
    (x : Var) (loc : Location) :
    Covers (n :: declared) ((d.emitNew (.copy x) loc).declare n d.next) := by
  intro m y hy
  simp only [Draft.declare, Scopes.lookup_define] at hy
  split at hy
  · rename_i heq
    obtain rfl := Option.some.inj hy
    exact iff_of_false d.next_not_reserved (by simp [heq])
  · rename_i hne
    have hm : m ∉ n :: declared ↔ m ∉ declared := by simp [Ne.symm hne]
    exact (h m y hy).trans hm.symm

/-- No free write of a name that is read or used as an operator. -/
@[simp] theorem write_mem_outside {declared : List String} {n : String} {use : Use} :
    .write n ∈ Use.outside declared use ↔ use = .write n ∧ n ∉ declared := by
  unfold Use.outside
  split
  · rename_i hmem
    refine iff_of_false List.not_mem_nil ?_
    rintro ⟨rfl, hfree⟩
    exact hfree hmem
  · rename_i hmem
    rw [List.mem_singleton]
    constructor
    · rintro rfl
      exact ⟨rfl, hmem⟩
    · exact fun h => h.1.symm

/-- An assignment writes freely unless its target is declared. -/
theorem write_not_mem_outside {declared : List String} {n : String} :
    (∀ m, Use.write m ∉ Use.outside declared (.write n)) ↔ n ∈ declared := by
  simp only [write_mem_outside, Use.write.injEq, not_and, Decidable.not_not]
  exact ⟨fun h => h n rfl, fun h m heq => heq ▸ h⟩

/-- Only a declaration changes what is declared for the statements behind it. -/
theorem freeUsesBody_cons {Γ : Scopes Ty} {e : Expr} {ty : Ty} (he : HasType Γ e ty)
    (declared : List String) (rest : List Expr) :
    freeUsesBody declared (e :: rest) = freeUses declared e ++ freeUsesBody declared rest := by
  cases he <;> rfl

/-- An operation writes freely what its operands do. -/
theorem clean_of_operation {Γ : Scopes Ty} {left right : Expr} {leftTy : Ty} {op : String}
    {loc : Location} {declared : List String} {d d' : Draft} {x : Var} (hassign : op ≠ "=")
    (hlogic : ¬(op = "and" ∨ op = "or")) (hleft : HasType Γ left leftTy)
    (hlowers : Lowers (.binary loc op left right) d x d') (h : Ready Γ d)
    (hcovers : Covers declared d)
    (ihLeft : ∀ {y d₁}, Lowers left d y d₁ →
      (d₁.Clean ↔ d.Clean ∧ ∀ n, Use.write n ∉ left.freeUses declared))
    (ihRight : ∀ {d₂ z d₃}, Lowers right d₂ z d₃ → Ready Γ d₂ → Covers declared d₂ →
      (d₃.Clean ↔ d₂.Clean ∧ ∀ n, Use.write n ∉ right.freeUses declared)) :
    d'.Clean ↔ d.Clean ∧ ∀ n, Use.write n ∉ (Expr.binary loc op left right).freeUses declared := by
  obtain ⟨d₁, d₂, d₃, callee, y, y', z, -, hlowers₁, hsettle, hlowers₂, rfl, rfl⟩ :=
    hlowers.operation_inv hassign hlogic
  obtain ⟨h₁, hext₁, hscopes₁, hy⟩ := h.lowers hleft hlowers₁
  obtain ⟨h₂, hext₂, hscopes₂, -⟩ := h₁.settles hsettle hy
  have hcovers₁ := hcovers.congr hscopes₁ hext₁.reserved
  have hcovers₂ := hcovers₁.congr hscopes₂ hext₂.reserved
  rw [clean_emitNew rfl, ihRight hlowers₂ h₂ hcovers₂, clean_of_settles hsettle, ihLeft hlowers₁]
  -- the operator itself is a use, and no write
  simp [freeUses, hassign, hlogic, forall_and, and_assoc]

mutual

/-- The code of an expression writes reserved variables for its free writes and nothing else. -/
theorem clean_of_lowers {Γ : Scopes Ty} {e : Expr} {ty : Ty} {declared : List String}
    {d d' : Draft} {x : Var} :
    HasType Γ e ty → Lowers e d x d' → Ready Γ d → Covers declared d →
      (d'.Clean ↔ d.Clean ∧ ∀ n, Use.write n ∉ e.freeUses declared)
  | .int, .int, _, _ => by
    rw [clean_emitNew rfl]
    simp [freeUses]
  | .bool, .bool, _, _ => by
    rw [clean_emitNew rfl]
    simp [freeUses]
  | .unit, .unit, _, _ => by simp [freeUses]
  | .name _ _, .name _, _, _ => by simp [freeUses]
  | .unary _ hoperand, .unary _ hlowers, h, hcovers => by
    rw [clean_emitNew rfl, clean_of_lowers hoperand hlowers h hcovers]
    simp [freeUses]
  | .assign _ _ hright, hlowers, h, hcovers => by
    obtain ⟨y, d₁, hcell, hlowers₁, rfl⟩ := hlowers.assign_inv
    obtain ⟨-, hext, -, -⟩ := h.lowers hright hlowers₁
    -- the cell is reserved exactly when the target is not declared
    rw [clean_emit_copy, clean_of_lowers hright hlowers₁ h hcovers, hext.reserved,
      hcovers _ _ hcell, Decidable.not_not, ← write_not_mem_outside]
    simp only [freeUses, if_true, List.mem_append, not_or, forall_and, and_assoc, and_comm]
  | .logic hop hleft hright, hlowers, h, hcovers => by
    obtain ⟨d₁, d₂, d₃, y, z, rightLabel, skipLabel, endLabel, hlowers₁, -, -, -, hlowers₂, rfl,
      rfl, rfl⟩ := hlowers.logic_inv hop
    obtain ⟨h₁, hext₁, hscopes₁, hy⟩ := h.lowers hleft hlowers₁
    have hcovers₁ := hcovers.congr hscopes₁ hext₁.reserved
    obtain ⟨-, hext₂, -, -⟩ := (h₁.logic hy _ _ _ _).lowers hright hlowers₂
    have hclean₂ := clean_of_lowers hright hlowers₂ (h₁.logic hy _ _ _ _) hcovers₁
    -- both copies go to the result, which was minted
    have hresult : d₁.next.name ∉ d₂.reserved := by
      rw [hext₂.reserved]
      exact d₁.next_not_reserved
    rw [clean_emit_label, clean_emit_copy, clean_emitNew rfl, clean_emit_label, clean_emit_jump,
      clean_emit_copy, hclean₂, clean_emit_label, clean_grown, clean_emit_logicBranch,
      clean_withLabels, clean_of_lowers hleft hlowers₁ h hcovers]
    simp only [freeUses, if_neg (ne_assign_of_logic hop), if_pos hop, List.mem_append, not_or,
      forall_and, and_assoc]
    exact ⟨fun ⟨hd, hl, hr, _, _⟩ => ⟨hd, hl, hr⟩,
      fun ⟨hd, hl, hr⟩ => ⟨hd, hl, hr, hresult, hresult⟩⟩
  | .compare hop hleft hright, hlowers, h, hcovers =>
    clean_of_operation (ne_assign_of_compare hop) (not_logic_of_compare hop) hleft hlowers h hcovers
      (fun hlowers₁ => clean_of_lowers hleft hlowers₁ h hcovers)
      fun hlowers₂ h₂ hcovers₂ => clean_of_lowers hright hlowers₂ h₂ hcovers₂
  | .binary hassign hlogic _ hleft hright, hlowers, h, hcovers =>
    clean_of_operation hassign hlogic hleft hlowers h hcovers
      (fun hlowers₁ => clean_of_lowers hleft hlowers₁ h hcovers)
      fun hlowers₂ h₂ hcovers₂ => clean_of_lowers hright hlowers₂ h₂ hcovers₂
  | .ifThen hcondition hthen, .ifThen hlowers₁ _ _ hlowers₂, h, hcovers => by
    obtain ⟨h₁, hext₁, hscopes₁, hx⟩ := h.lowers hcondition hlowers₁
    have hcovers₁ := hcovers.congr hscopes₁ hext₁.reserved
    have hclean₂ := clean_of_lowers hthen hlowers₂ (h₁.branched hx _ _ _ _) hcovers₁
    rw [clean_emit_label, hclean₂, clean_emit_label, clean_emit_branch, clean_withLabels,
      clean_of_lowers hcondition hlowers₁ h hcovers]
    simp only [freeUses, List.mem_append, not_or, forall_and, and_assoc]
  | .ifElse hcondition hthen helse, .ifElseUnit hlowers₁ _ _ _ hlowers₂ hlowers₃, h, hcovers => by
    obtain ⟨h₁, hext₁, hscopes₁, hx⟩ := h.lowers hcondition hlowers₁
    have hcovers₁ := hcovers.congr hscopes₁ hext₁.reserved
    obtain ⟨h₂, hext₂, hscopes₂, -⟩ := (h₁.branched hx _ _ _ _).lowers hthen hlowers₂
    have hclean₂ := clean_of_lowers hthen hlowers₂ (h₁.branched hx _ _ _ _) hcovers₁
    have hclean₃ := clean_of_lowers helse hlowers₃ (h₂.jumped _ _)
      (hcovers₁.congr hscopes₂ hext₂.reserved)
    rw [clean_emit_label, hclean₃, clean_emit_label, clean_emit_jump, hclean₂, clean_emit_label,
      clean_emit_branch, clean_withLabels, clean_of_lowers hcondition hlowers₁ h hcovers]
    simp only [freeUses, List.mem_append, not_or, forall_and, and_assoc]
  | .ifElse hcondition hthen helse, .ifElse hlowers₁ _ _ _ hlowers₂ _ hlowers₃, h, hcovers => by
    obtain ⟨h₁, hext₁, hscopes₁, hx⟩ := h.lowers hcondition hlowers₁
    have hcovers₁ := hcovers.congr hscopes₁ hext₁.reserved
    obtain ⟨h₂, hext₂, hscopes₂, hy⟩ := (h₁.branched hx _ _ _ _).lowers hthen hlowers₂
    have hclean₂ := clean_of_lowers hthen hlowers₂ (h₁.branched hx _ _ _ _) hcovers₁
    obtain ⟨-, hext₃, -, -⟩ := ((h₂.copied hy).jumped _ _).lowers helse hlowers₃
    have hclean₃ := clean_of_lowers helse hlowers₃ ((h₂.copied hy).jumped _ _)
      (hcovers₁.congr hscopes₂ hext₂.reserved)
    rw [clean_emit_label, clean_emit_copy, hclean₃, clean_emit_label, clean_emit_jump,
      clean_emitNew rfl, hclean₂, clean_emit_label, clean_emit_branch, clean_withLabels,
      clean_of_lowers hcondition hlowers₁ h hcovers, hext₃.reserved]
    refine (and_iff_left (next_not_reserved _)).trans ?_
    simp only [freeUses, List.mem_append, not_or, forall_and, and_assoc]
  | .call hfunction harguments, .call hlowers₁ hsettle hlowers₂, h, hcovers => by
    obtain ⟨h₁, hext₁, hscopes₁, hx⟩ := h.lowers hfunction hlowers₁
    obtain ⟨h₂, hext₂, hscopes₂, -⟩ := h₁.settles hsettle hx
    have hcovers₂ := (hcovers.congr hscopes₁ hext₁.reserved).congr hscopes₂ hext₂.reserved
    rw [clean_emitNew rfl, clean_of_lowersAll harguments hlowers₂ h₂ hcovers₂,
      clean_of_settles hsettle, clean_of_lowers hfunction hlowers₁ h hcovers]
    simp only [freeUses, List.mem_append, not_or, forall_and, and_assoc]
  | .block hbody, .block hlowers, h, hcovers => by
    rw [clean_pop, clean_of_lowersBody hbody hlowers h.push hcovers, clean_push, freeUses]

/-- Operands keep code clean as long as none of them has a free write. -/
theorem clean_of_lowersAll {Γ : Scopes Ty} {es : List Expr} {types : List Ty}
    {declared : List String} {d d' : Draft} {xs : List Var} :
    HaveTypes Γ es types → LowersAll es d xs d' → Ready Γ d → Covers declared d →
      (d'.Clean ↔ d.Clean ∧ ∀ n, Use.write n ∉ freeUsesAll declared es)
  | .nil, .nil, _, _ => by simp [freeUsesAll]
  | .cons hfirst hrest, .cons hlowers₁ hsettle hlowers₂, h, hcovers => by
    obtain ⟨h₁, hext₁, hscopes₁, hx⟩ := h.lowers hfirst hlowers₁
    obtain ⟨h₂, hext₂, hscopes₂, -⟩ := h₁.settles hsettle hx
    have hcovers₂ := (hcovers.congr hscopes₁ hext₁.reserved).congr hscopes₂ hext₂.reserved
    rw [clean_of_lowersAll hrest hlowers₂ h₂ hcovers₂, clean_of_settles hsettle,
      clean_of_lowers hfirst hlowers₁ h hcovers]
    simp only [freeUsesAll, List.mem_append, not_or, forall_and, and_assoc]

/-- Statements do, where what one of them declares is no longer free behind it. -/
theorem clean_of_lowersBody {Γ : Scopes Ty} {es : List Expr} {last ty : Ty}
    {declared : List String} {d d' : Draft} {x y : Var} :
    BodyHasType Γ last es ty → LowersBody x es d y d' → Ready Γ d → Covers declared d →
      (d'.Clean ↔ d.Clean ∧ ∀ n, Use.write n ∉ freeUsesBody declared es)
  | .nil, hlowers, _, _ => by
    cases hlowers
    simp [freeUsesBody]
  | .declare _ hvalue hrest, hlowers, h, hcovers => by
    obtain _ | ⟨hvar, hlowers₂⟩ := hlowers
    cases hvar with
    | var hlowers₁ =>
      obtain ⟨h₁, hext₁, hscopes₁, hy⟩ := h.lowers hvalue hlowers₁
      have hcovers₁ := hcovers.congr hscopes₁ hext₁.reserved
      rw [clean_of_lowersBody hrest hlowers₂ (h₁.declares hy _ _) (hcovers₁.declareNew _ _ _),
        clean_declare, clean_emitNew rfl, clean_of_lowers hvalue hlowers₁ h hcovers]
      simp only [freeUsesBody, freeUses, List.mem_append, not_or, forall_and, and_assoc]
  | .run hfirst hrest, hlowers, h, hcovers => by
    obtain _ | ⟨hlowers₁, hlowers₂⟩ := hlowers
    obtain ⟨h₁, hext₁, hscopes₁, -⟩ := h.lowers hfirst hlowers₁
    rw [clean_of_lowersBody hrest hlowers₂ h₁ (hcovers.congr hscopes₁ hext₁.reserved),
      clean_of_lowers hfirst hlowers₁ h hcovers, freeUsesBody_cons hfirst]
    simp only [List.mem_append, not_or, forall_and, and_assoc]

end

/-! ## Whole programs -/

/-- Where a program starts, every name in scope has a reserved variable. -/
theorem covers_start : Covers [] (.start reservedNames) := by
  intro n x hbound
  have hroot : (Draft.start reservedNames).scopes.depth = 0 := Scopes.depth_ofList _
  rw [Scopes.lookup_of_depth_eq_zero hroot] at hbound
  obtain ⟨-, hn, rfl⟩ := binding_start.1 hbound
  exact iff_of_true (List.mem_cons_of_mem _ hn) List.not_mem_nil

/-- Nothing has been written yet. -/
theorem clean_start (reserved : List String) : (Draft.start reserved).Clean := by
  simp [Clean, Draft.written, Draft.start]

/-- The code of a program writes reserved variables exactly when the program assigns to builtins. -/
theorem clean_of_lowersProgram {program : Expr} {ty ty' : Ty} {d : Draft}
    (htype : HasType rootScopes program ty)
    (h : LowersProgram program ty' (.start reservedNames) d) :
    d.Clean ↔ program.KeepsBuiltins := by
  cases h with
  | silent _ hprogram =>
    rw [clean_of_lowers htype hprogram ready_start covers_start, and_iff_right (clean_start _),
      KeepsBuiltins]
  | prints _ hprogram =>
    rw [clean_emitNew rfl, clean_of_lowers htype hprogram ready_start covers_start,
      and_iff_right (clean_start _), KeepsBuiltins]

/-- The validator finds a copy to a reserved variable when there is any write to one. -/
theorem filterMap_reservedCopy_eq_nil {reserved : List String} {d : Draft}
    (h : Ordered (unitName :: reserved) d.code.toList)
    (hreserved : d.reserved = unitName :: reserved) :
    d.code.toList.filterMap (Validity.reservedCopy reserved) = [] ↔ d.Clean := by
  rw [List.filterMap_eq_nil_iff, Clean, hreserved]
  constructor
  · intro hcopies x hx hname
    obtain ⟨i, hi, hwrites⟩ := List.mem_filterMap.1 hx
    obtain ⟨k, hk⟩ := List.mem_iff_getElem?.1 hi
    -- nothing but a copy writes a reserved variable, and a copy that does is found
    rcases hcopy : i.isCopy with _ | _
    · exact ((h k i hk).2 x hwrites hcopy).1 hname
    · have hfine := hcopies i hi
      obtain ⟨action, loc⟩ := i
      cases action with
      | copy source dest =>
        obtain rfl := Option.some.inj hwrites
        have hproblem : Validity.reservedCopy reserved ⟨.copy source dest, loc⟩ = some _ :=
          if_pos (Validity.mem_reservedVars.2 hname)
        exact absurd (hproblem.symm.trans hfine) (by simp)
      | _ => contradiction
  · intro hclean i hi
    obtain ⟨action, loc⟩ := i
    cases action with
    | copy source dest =>
      have hname := hclean dest (List.mem_filterMap.2 ⟨_, hi, rfl⟩)
      exact if_neg fun hmem => hname (Validity.mem_reservedVars.1 hmem)
    | _ => rfl

end Lowering

/-! ## Compiling what was checked -/

open Typing Lowering

section

variable {source : String} {tree : Expr} {ty : Ty} {d : Draft}

/-- The validator sees the code of a checked program, and reports its copies to reserved
    variables. -/
theorem problems_of_lowersProgram (hprogram : LowersProgram tree ty (.start reservedNames) d) :
    generate reservedNames tree ty = .ok d.code.toList ∧
      Validity.problems d.code.toList reservedNames =
        d.code.toList.filterMap (Validity.reservedCopy reservedNames) :=
  ⟨generate_eq_ok.2 ⟨d, hprogram, rfl⟩, (shaped_of_lowersProgram hprogram).problems⟩

/-- The validator looks for nothing but copies into reserved variables in the code of a checked
    program, so a program without them compiles. -/
theorem compile_of_no_copies (h : checkProgram source = .ok (some (tree, ty)))
    (hprogram : LowersProgram tree ty (.start reservedNames) d)
    (hcopies : d.code.toList.filterMap (Validity.reservedCopy reservedNames) = []) :
    compile source = .ok ⟨some tree, ty, d.code.toList, reservedNames⟩ := by
  obtain ⟨hcode, hproblems⟩ := problems_of_lowersProgram hprogram
  simp only [compile, h, hcode, hproblems, hcopies]

/-- A program with some of them is refused, and they are all that is reported. -/
theorem compile_of_copies (h : checkProgram source = .ok (some (tree, ty)))
    (hprogram : LowersProgram tree ty (.start reservedNames) d) {p : Problem} {rest : List Problem}
    (hcopies : d.code.toList.filterMap (Validity.reservedCopy reservedNames) = p :: rest) :
    compile source = .error (.malformed ((p :: rest).map Problem.text)) := by
  obtain ⟨hcode, hproblems⟩ := problems_of_lowersProgram hprogram
  simp only [compile, h, hcode, hproblems, hcopies]

end

/-- What compiles has passed every check, and its code is clean. -/
theorem lowersProgram_of_compile {source : String} {c : Compiled} {tree : Expr}
    (h : compile source = .ok c) (htree : c.tree = some tree) :
    readProgram source = .ok (some tree) ∧ typeOf tree = .ok c.ty ∧
      ∃ d, LowersProgram tree c.ty (.start reservedNames) d ∧ d.Clean ∧ c.code = d.code.toList := by
  rcases hcheck : checkProgram source with e | _ | ⟨tree', ty⟩
  · rw [compile, hcheck] at h
    contradiction
  · rw [compile, hcheck] at h
    obtain rfl := Except.ok.inj h
    contradiction
  · obtain ⟨hread, htype⟩ := checkProgram_eq_ok.1 hcheck
    obtain ⟨d, hprogram⟩ := lowersProgram_of_hasType (hasType_of_typeOf hread htype)
    have hclean := filterMap_reservedCopy_eq_nil (shaped_of_lowersProgram hprogram).ordered
      (invariants_of_lowersProgram hprogram).2.2
    rcases hcopies : d.code.toList.filterMap (Validity.reservedCopy reservedNames)
      with _ | ⟨p, rest⟩
    · rw [compile_of_no_copies hcheck hprogram hcopies] at h
      obtain rfl := Except.ok.inj h
      obtain rfl := Option.some.inj htree
      exact ⟨hread, htype, d, hprogram, hclean.1 hcopies, rfl⟩
    · rw [compile_of_copies hcheck hprogram hcopies] at h
      contradiction

/-- Every problem with copies to reserved variables is about a reserved variable. -/
theorem overwritesReserved_of_mem {reserved : List String} {code : List Instr} {p : Problem}
    (h : p ∈ code.filterMap (Validity.reservedCopy reserved)) :
    ∃ i x, p = .overwritesReserved i x := by
  obtain ⟨i, -, hi⟩ := List.mem_filterMap.1 h
  unfold Validity.reservedCopy at hi
  split at hi
  · split at hi
    · exact ⟨_, _, (Option.some.inj hi).symm⟩
    · contradiction
  · contradiction

/-- A program that was read and checked compiles exactly when it assigns to no builtin.  Otherwise
    its code is refused, for nothing but writing reserved variables. -/
theorem compile_of_checkProgram {source : String} {program : Option (Expr × Ty)}
    (h : checkProgram source = .ok program) :
    ((∃ c, compile source = .ok c) ↔ ∀ p ∈ program, p.1.KeepsBuiltins) ∧
      ∀ e, compile source = .error e → ∃ problems : List Problem, problems ≠ [] ∧
        (∀ p ∈ problems, ∃ i x, p = .overwritesReserved i x) ∧
        e = .malformed (problems.map Problem.text) := by
  rcases program with _ | ⟨tree, ty⟩
  · have hempty : compile source = .ok ⟨none, .unit, [], reservedNames⟩ := by rw [compile, h]
    rw [hempty]
    exact ⟨iff_of_true ⟨_, rfl⟩ (by simp), by simp⟩
  · have hchecked := checkProgram_eq_ok.1 h
    have htype := hasType_of_typeOf hchecked.1 hchecked.2
    obtain ⟨d, hprogram⟩ := lowersProgram_of_hasType htype
    have hclean := clean_of_lowersProgram htype hprogram
    have hproblems := filterMap_reservedCopy_eq_nil (shaped_of_lowersProgram hprogram).ordered
      (invariants_of_lowersProgram hprogram).2.2
    have hkeeps : (∀ p ∈ some (tree, ty), p.1.KeepsBuiltins) ↔ tree.KeepsBuiltins := by simp
    rw [hkeeps, ← hclean, ← hproblems]
    rcases hcopies : d.code.toList.filterMap (Validity.reservedCopy reservedNames)
      with _ | ⟨p, rest⟩
    · rw [compile_of_no_copies h hprogram hcopies]
      exact ⟨iff_of_true ⟨_, rfl⟩ rfl, by simp⟩
    · rw [compile_of_copies h hprogram hcopies]
      refine ⟨iff_of_false (by simp) (by simp), ?_⟩
      intro e he
      obtain rfl := Except.error.inj he
      exact ⟨_, by simp, fun q hq => overwritesReserved_of_mem (hcopies ▸ hq), rfl⟩

/-- A program that assigns to nothing. -/
theorem compile_of_checkProgram_quotient :
    ∃ tree, checkProgram "7 / 2" = .ok (some (tree, .int)) ∧ ∃ c, compile "7 / 2" = .ok c := by
  have hread : readProgram "7 / 2" = .ok (some (.binary (.known ⟨1, 3⟩) "/"
      (.int (.known ⟨1, 1⟩) 7) (.int (.known ⟨1, 5⟩) 2))) := by cbv
  have h := checkProgram_eq_ok.2 ⟨hread, rfl⟩
  refine ⟨_, h, (compile_of_checkProgram h).1.2 ?_⟩
  rintro p ⟨⟩ n
  simp [Expr.freeUses]

/-- A program that assigns to a builtin passes every check and runs, and is refused all the same. -/
theorem compile_assigned_builtin :
    checkProgram "print_int = print_int" = .ok (some (.binary (.known ⟨1, 11⟩) "="
        (.name (.known ⟨1, 1⟩) "print_int") (.name (.known ⟨1, 13⟩) "print_int"),
        .func [.int] .unit)) ∧
      (run "print_int = print_int" {}).1 = .ok (.builtin .printInt) ∧
      compile "print_int = print_int" = .error (.malformed
        ["1:11: `Copy(print_int, print_int)` overwrites reserved print_int"]) := by
  refine ⟨?_, ?_, ?_⟩
  · cbv
  · cbv
  · cbv

end ExprLang
