/-
  LOWERING RULES: which code an expression has.

  Lowering carries a draft along and may fail.  `Lowers e d x d'` says without either that the
  code of `e`, written behind the draft `d`, gives the draft `d'` and leaves the value of `e` in
  the variable `x`.  Each construct has one rule, in which the drafts on the way are spelled out:
  `emit` writes an instruction, `emitNew` one whose destination is minted for it, `withLabels`
  counts labels that were handed out.

  `lower_eq_ok_iff` says that the rules are exactly the successful runs of `lower`.  What is true
  of all code is proved by induction on derivations.
-/
import ExprLang.Code.Lowering
import ExprLang.Proofs.Effects

namespace ExprLang

/-! ## Steps of a draft -/

/-- The label of a number. -/
def Label.numbered (stem : String) (k : Nat) : Label := ⟨stem ++ toString k⟩

namespace Draft

/-- The variable that would be minted now. -/
def next (d : Draft) : Var := d.mint.1

/-- The draft once that variable is taken. -/
def grown (d : Draft) : Draft := d.mint.2

/-- Write an instruction with a new destination. -/
def emitNew (action : Var → Action) (location : Location) (d : Draft) : Draft :=
  d.grown.emit (action d.next) location

/-- Count labels that were handed out. -/
def withLabels (count : Nat) (d : Draft) : Draft := { d with labels := d.labels + count }

/-- Labels are counted, so minting some and then more is minting all of them. -/
@[simp] theorem withLabels_withLabels (d : Draft) (j k : Nat) :
    (d.withLabels j).withLabels k = d.withLabels (j + k) := by
  simp only [withLabels, Nat.add_assoc]

/-- The count of labels is all that minting them changes. -/
@[simp] theorem labels_withLabels (d : Draft) (k : Nat) :
    (d.withLabels k).labels = d.labels + k := rfl

/-- Variables are counted apart from labels. -/
@[simp] theorem next_withLabels (d : Draft) (k : Nat) : (d.withLabels k).next = d.next := rfl

/-- Writing an instruction mints nothing. -/
@[simp] theorem next_emit (d : Draft) (action : Action) (location : Location) :
    (d.emit action location).next = d.next := rfl

/-- Bind a name to a variable of its own. -/
def declare (name : String) (x : Var) (d : Draft) : Draft :=
  { d with scopes := d.scopes.define name x, declared := x :: d.declared }

end Draft

namespace Lowering

/-! ## The rules -/

/-- The variable from which an operand is read, and the draft once it is settled. -/
inductive Settles (x : Var) (overwritten : Bool) (loc : Location) (d : Draft) :
    Var → Draft → Prop
  | keep (hsafe : ¬(x ∈ d.declared ∧ overwritten = true)) : Settles x overwritten loc d x d
  | copy (hdeclared : x ∈ d.declared) (hoverwritten : overwritten = true) :
      Settles x overwritten loc d d.next (d.emitNew (.copy x) loc)

/-- The branch of `and` and `or`: on to the right side, or past it once the left one decides. -/
def logicBranch (op : String) (x : Var) (rightLabel skipLabel : Label) : Action :=
  if op = "or" then .branch x skipLabel rightLabel else .branch x rightLabel skipLabel

mutual

/-- The code of an expression. -/
inductive Lowers : Expr → Draft → Var → Draft → Prop
  | int {d loc n} : Lowers (.int loc n) d d.next (d.emitNew (.loadInt n) loc)
  | bool {d loc b} : Lowers (.bool loc b) d d.next (d.emitNew (.loadBool b) loc)
  | unit {d loc} : Lowers (.unit loc) d .unit d
  | name {d loc n x} (hbound : d.scopes.lookup n = some x) : Lowers (.name loc n) d x d
  | unary {d d₁ loc op operand callee x}
      (hcallee : d.scopes.lookup (Expr.unaryName op) = some callee)
      (hoperand : Lowers operand d x d₁) :
      Lowers (.unary loc op operand) d d₁.next (d₁.emitNew (.call callee [x]) loc)
  | assign {d d₁ loc nameLoc n right cell x} (hcell : d.scopes.lookup n = some cell)
      (hright : Lowers right d x d₁) :
      Lowers (.binary loc "=" (.name nameLoc n) right) d cell (d₁.emit (.copy x cell) loc)
  | logic {d d₁ d₂ d₃ loc op left right x y rightLabel skipLabel endLabel}
      (hop : op = "and" ∨ op = "or") (hleft : Lowers left d x d₁)
      (hrightLabel : rightLabel = .numbered (op ++ "_right") (d₁.labels + 1))
      (hskipLabel : skipLabel = .numbered (op ++ "_skip") (d₁.labels + 2))
      (hendLabel : endLabel = .numbered (op ++ "_end") (d₁.labels + 3))
      (hright : Lowers right
        (((d₁.withLabels 3).emit (logicBranch op x rightLabel skipLabel) loc).grown.emit
          (.label rightLabel) loc) y d₂)
      (hmerge : d₃ = ((d₂.emit (.copy y d₁.next) loc).emit (.jump endLabel) loc).emit
        (.label skipLabel) loc) :
      Lowers (.binary loc op left right) d d₁.next
        (((d₃.emitNew (.loadBool (decide (op = "or"))) loc).emit (.copy d₃.next d₁.next) loc).emit
          (.label endLabel) loc)
  | operation {d d₁ d₂ d₃ loc op left right callee x x' y} (hassign : op ≠ "=")
      (hlogic : ¬(op = "and" ∨ op = "or")) (hcallee : d.scopes.lookup op = some callee)
      (hleft : Lowers left d x d₁) (hsettle : Settles x (assigns right) left.location d₁ x' d₂)
      (hright : Lowers right d₂ y d₃) :
      Lowers (.binary loc op left right) d d₃.next (d₃.emitNew (.call callee [x', y]) loc)
  | ifThen {d d₁ d₂ loc condition thenBranch x y thenLabel endLabel}
      (hcondition : Lowers condition d x d₁)
      (hthenLabel : thenLabel = .numbered "then" (d₁.labels + 1))
      (hendLabel : endLabel = .numbered "if_end" (d₁.labels + 2))
      (hthen : Lowers thenBranch
        (((d₁.withLabels 2).emit (.branch x thenLabel endLabel) loc).emit (.label thenLabel) loc)
        y d₂) :
      Lowers (.ifThen loc condition thenBranch) d .unit (d₂.emit (.label endLabel) loc)
  | ifElseUnit {d d₁ d₂ d₃ loc condition thenBranch elseBranch x z thenLabel elseLabel endLabel}
      (hcondition : Lowers condition d x d₁)
      (hthenLabel : thenLabel = .numbered "then" (d₁.labels + 1))
      (helseLabel : elseLabel = .numbered "else" (d₁.labels + 2))
      (hendLabel : endLabel = .numbered "if_end" (d₁.labels + 3))
      (hthen : Lowers thenBranch
        (((d₁.withLabels 3).emit (.branch x thenLabel elseLabel) loc).emit (.label thenLabel) loc)
        .unit d₂)
      (helse : Lowers elseBranch
        ((d₂.emit (.jump endLabel) loc).emit (.label elseLabel) loc) z d₃) :
      Lowers (.ifElse loc condition thenBranch elseBranch) d .unit (d₃.emit (.label endLabel) loc)
  | ifElse {d d₁ d₂ d₃ loc condition thenBranch elseBranch x y z thenLabel elseLabel endLabel}
      (hcondition : Lowers condition d x d₁)
      (hthenLabel : thenLabel = .numbered "then" (d₁.labels + 1))
      (helseLabel : elseLabel = .numbered "else" (d₁.labels + 2))
      (hendLabel : endLabel = .numbered "if_end" (d₁.labels + 3))
      (hthen : Lowers thenBranch
        (((d₁.withLabels 3).emit (.branch x thenLabel elseLabel) loc).emit (.label thenLabel) loc)
        y d₂)
      (hvalue : y ≠ .unit)
      (helse : Lowers elseBranch
        (((d₂.emitNew (.copy y) loc).emit (.jump endLabel) loc).emit (.label elseLabel) loc) z d₃) :
      Lowers (.ifElse loc condition thenBranch elseBranch) d d₂.next
        ((d₃.emit (.copy z d₂.next) loc).emit (.label endLabel) loc)
  | call {d d₁ d₂ d₃ loc function arguments callee callee' xs}
      (hfunction : Lowers function d callee d₁)
      (hsettle : Settles callee (assignsAny arguments) function.location d₁ callee' d₂)
      (harguments : LowersAll arguments d₂ xs d₃) :
      Lowers (.call loc function arguments) d d₃.next (d₃.emitNew (.call callee' xs) loc)
  | var {d d₁ loc n value x} (hvalue : Lowers value d x d₁) :
      Lowers (.var loc n value) d d₁.next ((d₁.emitNew (.copy x) loc).declare n d₁.next)
  | block {d d₁ loc statements x} (hbody : LowersBody .unit statements d.push x d₁) :
      Lowers (.block loc statements) d x d₁.pop

/-- The code of some operands, each settled against those behind it. -/
inductive LowersAll : List Expr → Draft → List Var → Draft → Prop
  | nil {d} : LowersAll [] d [] d
  | cons {d d₁ d₂ d₃ e rest x x' xs} (hfirst : Lowers e d x d₁)
      (hsettle : Settles x (assignsAny rest) e.location d₁ x' d₂)
      (hrest : LowersAll rest d₂ xs d₃) : LowersAll (e :: rest) d (x' :: xs) d₃

/-- The code of some statements. -/
inductive LowersBody : Var → List Expr → Draft → Var → Draft → Prop
  | nil {d last} : LowersBody last [] d last d
  | cons {d d₁ d₂ last e rest x y} (hfirst : Lowers e d x d₁) (hrest : LowersBody x rest d₁ y d₂) :
      LowersBody last (e :: rest) d y d₂

end

/-! ## Small steps of lowering -/

section

variable {d d' : Draft} {x y : Var} {loc : Location}

/-- A look-up succeeds where the name is bound, and leaves the draft alone. -/
theorem lookup_eq_ok {n : String} :
    lookup n loc d = .ok x d' ↔ d.scopes.lookup n = some x ∧ d' = d := by
  unfold lookup
  rcases d.scopes.lookup n with _ | found <;> simp [eq_comm]

/-- This and the next ones say what one small step of lowering makes of a draft. -/
theorem mint_eq_ok : mint d = .ok x d' ↔ d.next = x ∧ d.grown = d' := by
  show EStateM.Result.ok d.mint.1 d.mint.2 = _ ↔ _
  rw [EStateM.Result.ok.injEq]
  exact Iff.rfl

theorem mintLabel_eq_ok {stem : String} {l : Label} :
    mintLabel stem d = .ok l d' ↔
      .numbered stem (d.labels + 1) = l ∧ d.withLabels 1 = d' := by
  show EStateM.Result.ok _ _ = _ ↔ _
  rw [EStateM.Result.ok.injEq]
  exact Iff.rfl

theorem emit_eq_ok {action : Action} {u : Unit} :
    emit action loc d = .ok u d' ↔ d.emit action loc = d' := by
  show EStateM.Result.ok () _ = _ ↔ _
  simp

theorem declare_eq_ok {n : String} {u : Unit} :
    declare n x d = .ok u d' ↔ d.declare n x = d' := by
  show EStateM.Result.ok () _ = _ ↔ _
  simp [Draft.declare]

theorem call_eq_ok {callee : Var} {xs : List Var} :
    call callee xs loc d = .ok x d' ↔
      d.next = x ∧ d.emitNew (.call callee xs) loc = d' := by
  simp only [call, bind_eq_ok, mint_eq_ok, emit_eq_ok, pure_eq_ok]
  constructor
  · rintro ⟨_, _, ⟨rfl, rfl⟩, _, _, rfl, rfl, rfl⟩
    exact ⟨rfl, rfl⟩
  · rintro ⟨rfl, rfl⟩
    exact ⟨_, _, ⟨rfl, rfl⟩, (), _, rfl, rfl, rfl⟩

/-- An operand is settled by a copy exactly when `Settles` says so. -/
theorem settle_eq_ok {overwritten : Bool} :
    settle x overwritten loc d = .ok y d' ↔ Settles x overwritten loc d y d' := by
  have hget : settle x overwritten loc d
      = (if d.declared.contains x && overwritten then (do
          let snapshot ← mint
          emit (.copy x snapshot) loc
          pure snapshot : Lower Var) else pure x) d := rfl
  rw [hget]
  by_cases hcopy : x ∈ d.declared ∧ overwritten = true
  · rw [if_pos (by simpa using hcopy)]
    simp only [bind_eq_ok, mint_eq_ok, emit_eq_ok, pure_eq_ok]
    constructor
    · rintro ⟨_, _, ⟨rfl, rfl⟩, _, _, rfl, rfl, rfl⟩
      exact .copy hcopy.1 hcopy.2
    · intro h
      cases h with
      | keep hsafe => exact absurd hcopy hsafe
      | copy _ _ => exact ⟨_, _, ⟨rfl, rfl⟩, (), _, rfl, rfl, rfl⟩
  · rw [if_neg (by simpa using hcopy), pure_eq_ok]
    constructor
    · rintro ⟨rfl, rfl⟩
      exact .keep hcopy
    · intro h
      cases h with
      | keep _ => exact ⟨rfl, rfl⟩
      | copy hdeclared hoverwritten => exact absurd ⟨hdeclared, hoverwritten⟩ hcopy

end

/-! ## The three meanings of a binary operator -/

section

variable {loc : Location} {op : String} {left right : Expr}

/-- The variable is looked up before its value is lowered, and is the result. -/
theorem lower_assign {nameLoc : Location} {n : String} :
    lower (.binary loc "=" (.name nameLoc n) right) = (do
      let cell ← lookup n nameLoc
      let v ← lower right
      emit (.copy v cell) loc
      pure cell) := by
  rw [lower, if_pos rfl]

/-- The end of `and` and `or`: what the right side gave, or what the left side decided. -/
def mergeLogic (decided : Bool) (loc : Location) (y result : Var) (skipLabel endLabel : Label) :
    Lower Var := do
  emit (.copy y result) loc
  emit (.jump endLabel) loc
  emit (.label skipLabel) loc
  let x ← mint
  emit (.loadBool decided x) loc
  emit (.copy x result) loc
  emit (.label endLabel) loc
  pure result

/-- The labels are minted in front of the branch, and the variable of the result behind it. -/
theorem lower_logic (hop : op = "and" ∨ op = "or") :
    lower (.binary loc op left right) = (do
      let v ← lower left
      let rightLabel ← mintLabel (op ++ "_right")
      let skipLabel ← mintLabel (op ++ "_skip")
      let endLabel ← mintLabel (op ++ "_end")
      emit (logicBranch op v rightLabel skipLabel) loc
      let result ← mint
      emit (.label rightLabel) loc
      let w ← lower right
      mergeLogic (decide (op = "or")) loc w result skipLabel endLabel) := by
  have hassign : op ≠ "=" := by rcases hop with rfl | rfl <;> decide
  rw [lower.eq_def]
  simp only [if_neg hassign, if_pos hop, decide_eq_true_eq, logicBranch, mergeLogic]

/-- The operator is looked up first; its left operand is settled before the right one is lowered. -/
theorem lower_operation (hassign : op ≠ "=") (hlogic : ¬(op = "and" ∨ op = "or")) :
    lower (.binary loc op left right) = (do
      let callee ← lookup op loc
      let v ← lower left
      let v ← settle v (assigns right) left.location
      let w ← lower right
      call callee [v, w] loc) := by
  rw [lower.eq_def]
  simp only [if_neg hassign, if_neg hlogic]

/-- Nothing but a name has code that assigns to it. -/
theorem lower_assign_eq_ok {d d' : Draft} {x : Var}
    (h : lower (.binary loc "=" left right) d = .ok x d') :
    ∃ nameLoc n, left = .name nameLoc n := by
  rw [lower.eq_def] at h
  simp only [if_true] at h
  split at h
  · exact ⟨_, _, rfl⟩
  · exact (throw_eq_ok.1 h).elim

end

/-! ## The rules are the successful runs -/

mutual

/-- One case for each form of expression; the steps of `lower` are taken apart from left to
    right. -/
theorem lowers_of_lower {d d' : Draft} {x : Var} :
    (e : Expr) → lower e d = .ok x d' → Lowers e d x d'
  | .int loc n, h => by
    simp only [lower, bind_eq_ok, mint_eq_ok, emit_eq_ok, pure_eq_ok] at h
    obtain ⟨_, _, ⟨rfl, rfl⟩, _, _, rfl, rfl, rfl⟩ := h
    exact .int
  | .bool loc b, h => by
    simp only [lower, bind_eq_ok, mint_eq_ok, emit_eq_ok, pure_eq_ok] at h
    obtain ⟨_, _, ⟨rfl, rfl⟩, _, _, rfl, rfl, rfl⟩ := h
    exact .bool
  | .unit loc, h => by
    obtain ⟨rfl, rfl⟩ := pure_eq_ok.1 h
    exact .unit
  | .name loc n, h => by
    obtain ⟨hbound, rfl⟩ := lookup_eq_ok.1 h
    exact .name hbound
  | .unary loc op operand, h => by
    simp only [lower, bind_eq_ok, lookup_eq_ok, call_eq_ok] at h
    obtain ⟨callee, _, ⟨hcallee, rfl⟩, y, d₁, hoperand, rfl, rfl⟩ := h
    exact .unary hcallee (lowers_of_lower operand hoperand)
  | .binary loc op left right, h => by
    by_cases hassign : op = "="
    · subst hassign
      obtain ⟨nameLoc, n, rfl⟩ := lower_assign_eq_ok h
      simp only [lower_assign, bind_eq_ok, lookup_eq_ok, emit_eq_ok, pure_eq_ok] at h
      obtain ⟨cell, _, ⟨hcell, rfl⟩, y, d₁, hright, _, _, rfl, rfl, rfl⟩ := h
      exact .assign hcell (lowers_of_lower right hright)
    · by_cases hlogic : op = "and" ∨ op = "or"
      · simp only [lower_logic hlogic, bind_eq_ok, mintLabel_eq_ok, mint_eq_ok, emit_eq_ok]
          at h
        obtain ⟨y, d₁, hleft, _, _, ⟨rfl, rfl⟩, _, _, ⟨rfl, rfl⟩, _, _, ⟨rfl, rfl⟩, _, _, rfl, _, _,
          ⟨rfl, rfl⟩, _, _, rfl, z, d₂, hright, hmerge⟩ := h
        obtain ⟨rfl, rfl⟩ := EStateM.Result.ok.inj hmerge
        have hright := lowers_of_lower right hright
        simp only [Draft.withLabels_withLabels, Draft.labels_withLabels, Draft.next_emit,
          Draft.next_withLabels] at hright ⊢
        exact .logic hlogic (lowers_of_lower left hleft) rfl rfl rfl hright rfl
      · simp only [lower_operation hassign hlogic, bind_eq_ok, lookup_eq_ok, settle_eq_ok,
          call_eq_ok] at h
        obtain ⟨callee, _, ⟨hcallee, rfl⟩, y, d₁, hleft, y', d₂, hsettle, z, d₃, hright, rfl,
          rfl⟩ := h
        exact .operation hassign hlogic hcallee (lowers_of_lower left hleft) hsettle
          (lowers_of_lower right hright)
  | .ifThen loc condition thenBranch, h => by
    simp only [lower, bind_eq_ok, mintLabel_eq_ok, emit_eq_ok, pure_eq_ok] at h
    obtain ⟨y, d₁, hcondition, _, _, ⟨rfl, rfl⟩, _, _, ⟨rfl, rfl⟩, _, _, rfl, _, _, rfl, z, d₂,
      hthen, _, _, rfl, rfl, rfl⟩ := h
    have hthen := lowers_of_lower thenBranch hthen
    simp only [Draft.withLabels_withLabels, Draft.labels_withLabels] at hthen ⊢
    exact .ifThen (lowers_of_lower condition hcondition) rfl rfl hthen
  | .ifElse loc condition thenBranch elseBranch, h => by
    simp only [lower, bind_eq_ok, mintLabel_eq_ok, emit_eq_ok] at h
    obtain ⟨y, d₁, hcondition, _, _, ⟨rfl, rfl⟩, _, _, ⟨rfl, rfl⟩, _, _, ⟨rfl, rfl⟩, _, _, rfl,
      _, _, rfl, z, d₂, hthen, h⟩ := h
    have hthen := lowers_of_lower thenBranch hthen
    simp only [Draft.withLabels_withLabels, Draft.labels_withLabels] at hthen h
    split at h
    · -- the first branch has no value, so there is nothing to merge
      rename_i hunit
      subst hunit
      simp only [bind_eq_ok, emit_eq_ok, pure_eq_ok] at h
      obtain ⟨_, _, rfl, _, _, rfl, w, d₃, helse, _, _, rfl, rfl, rfl⟩ := h
      exact .ifElseUnit (lowers_of_lower condition hcondition) rfl rfl rfl hthen
        (lowers_of_lower elseBranch helse)
    · rename_i hvalue
      simp only [bind_eq_ok, emit_eq_ok, mint_eq_ok, pure_eq_ok] at h
      obtain ⟨_, _, ⟨rfl, rfl⟩, _, _, rfl, _, _, rfl, _, _, rfl, w, d₃, helse, _, _, rfl, _, _, rfl,
        rfl, rfl⟩ := h
      exact .ifElse (lowers_of_lower condition hcondition) rfl rfl rfl hthen hvalue
        (lowers_of_lower elseBranch helse)
  | .call loc function arguments, h => by
    simp only [lower, bind_eq_ok, settle_eq_ok, call_eq_ok] at h
    obtain ⟨callee, d₁, hfunction, callee', d₂, hsettle, xs, d₃, harguments, rfl, rfl⟩ := h
    exact .call (lowers_of_lower function hfunction) hsettle
      (lowersAll_of_lowerArguments arguments harguments)
  | .var loc n value, h => by
    simp only [lower, bind_eq_ok, mint_eq_ok, emit_eq_ok, declare_eq_ok, pure_eq_ok] at h
    obtain ⟨y, d₁, hvalue, _, _, ⟨rfl, rfl⟩, _, _, rfl, _, _, rfl, rfl, rfl⟩ := h
    exact .var (lowers_of_lower value hvalue)
  | .block loc statements, h => by
    simp only [lower, inScope, within_eq_ok] at h
    obtain ⟨d₁, hbody, rfl⟩ := h
    exact .block (lowersBody_of_lowerStatements statements hbody)

/-- The same for operands, each of which is settled. -/
theorem lowersAll_of_lowerArguments {d d' : Draft} {xs : List Var} :
    (es : List Expr) → lowerArguments es d = .ok xs d' → LowersAll es d xs d'
  | [], h => by
    obtain ⟨rfl, rfl⟩ := pure_eq_ok.1 h
    exact .nil
  | e :: rest, h => by
    simp only [lowerArguments, bind_eq_ok, settle_eq_ok, pure_eq_ok] at h
    obtain ⟨x, d₁, hfirst, x', d₂, hsettle, ys, d₃, hrest, rfl, rfl⟩ := h
    exact .cons (lowers_of_lower e hfirst) hsettle (lowersAll_of_lowerArguments rest hrest)

/-- The same for statements, of which the last one counts. -/
theorem lowersBody_of_lowerStatements {d d' : Draft} {last x : Var} :
    (es : List Expr) → lowerStatements last es d = .ok x d' → LowersBody last es d x d'
  | [], h => by
    obtain ⟨rfl, rfl⟩ := pure_eq_ok.1 h
    exact .nil
  | e :: rest, h => by
    simp only [lowerStatements, bind_eq_ok] at h
    obtain ⟨y, d₁, hfirst, hrest⟩ := h
    exact .cons (lowers_of_lower e hfirst) (lowersBody_of_lowerStatements rest hrest)

end

mutual

/-- The way back, by induction on the derivation. -/
theorem lower_of_lowers {e : Expr} {d d' : Draft} {x : Var} :
    Lowers e d x d' → lower e d = .ok x d'
  | .int => rfl
  | .bool => rfl
  | .unit => rfl
  | .name hbound => lookup_eq_ok.2 ⟨hbound, rfl⟩
  | .unary hcallee hoperand => by
    simp only [lower, bind_eq_ok, lookup_eq_ok, call_eq_ok]
    exact ⟨_, _, ⟨hcallee, rfl⟩, _, _, lower_of_lowers hoperand, rfl, rfl⟩
  | .assign hcell hright => by
    simp only [lower_assign, bind_eq_ok, lookup_eq_ok, emit_eq_ok, pure_eq_ok]
    exact ⟨_, _, ⟨hcell, rfl⟩, _, _, lower_of_lowers hright, (), _, rfl, rfl, rfl⟩
  | .logic hop hleft hrightLabel hskipLabel hendLabel hright hmerge => by
    -- the derivation names its labels and the draft behind the skipped side by equations
    subst hrightLabel hskipLabel hendLabel hmerge
    simp only [lower_logic hop, bind_eq_ok, mintLabel_eq_ok, mint_eq_ok, emit_eq_ok, and_assoc,
      exists_and_left, exists_eq_left', exists_const, Draft.withLabels_withLabels,
      Draft.labels_withLabels]
    exact ⟨_, _, lower_of_lowers hleft, _, _, lower_of_lowers hright, rfl⟩
  | .operation hassign hlogic hcallee hleft hsettle hright => by
    simp only [lower_operation hassign hlogic, bind_eq_ok, lookup_eq_ok, settle_eq_ok, call_eq_ok]
    exact ⟨_, _, ⟨hcallee, rfl⟩, _, _, lower_of_lowers hleft, _, _, hsettle, _, _,
      lower_of_lowers hright, rfl, rfl⟩
  | .ifThen hcondition hthenLabel hendLabel hthen => by
    subst hthenLabel hendLabel
    simp only [lower, bind_eq_ok, mintLabel_eq_ok, emit_eq_ok, pure_eq_ok, and_assoc,
      exists_and_left, exists_eq_left', exists_const, Draft.withLabels_withLabels,
      Draft.labels_withLabels]
    exact ⟨_, _, lower_of_lowers hcondition, _, _, lower_of_lowers hthen, trivial, rfl⟩
  | .ifElseUnit hcondition hthenLabel helseLabel hendLabel hthen helse => by
    subst hthenLabel helseLabel hendLabel
    simp only [lower, bind_eq_ok, mintLabel_eq_ok, emit_eq_ok, and_assoc, exists_and_left,
      exists_eq_left', exists_const, Draft.withLabels_withLabels, Draft.labels_withLabels]
    refine ⟨_, _, lower_of_lowers hcondition, _, _, lower_of_lowers hthen, ?_⟩
    simp only [if_true, bind_eq_ok, emit_eq_ok, pure_eq_ok]
    exact ⟨(), _, rfl, (), _, rfl, _, _, lower_of_lowers helse, (), _, rfl, trivial, rfl⟩
  | .ifElse hcondition hthenLabel helseLabel hendLabel hthen hvalue helse => by
    subst hthenLabel helseLabel hendLabel
    simp only [lower, bind_eq_ok, mintLabel_eq_ok, emit_eq_ok, and_assoc, exists_and_left,
      exists_eq_left', exists_const, Draft.withLabels_withLabels, Draft.labels_withLabels]
    refine ⟨_, _, lower_of_lowers hcondition, _, _, lower_of_lowers hthen, ?_⟩
    simp only [if_neg hvalue, bind_eq_ok, mint_eq_ok, emit_eq_ok, pure_eq_ok]
    exact ⟨_, _, ⟨rfl, rfl⟩, (), _, rfl, (), _, rfl, (), _, rfl, _, _, lower_of_lowers helse,
      (), _, rfl, (), _, rfl, rfl, rfl⟩
  | .call hfunction hsettle harguments => by
    simp only [lower, bind_eq_ok, settle_eq_ok, call_eq_ok]
    exact ⟨_, _, lower_of_lowers hfunction, _, _, hsettle, _, _,
      lowerArguments_of_lowersAll harguments, rfl, rfl⟩
  | .var hvalue => by
    simp only [lower, bind_eq_ok, mint_eq_ok, emit_eq_ok, declare_eq_ok, pure_eq_ok]
    exact ⟨_, _, lower_of_lowers hvalue, _, _, ⟨rfl, rfl⟩, (), _, rfl, (), _, rfl, rfl, rfl⟩
  | .block hbody => by
    simp only [lower, inScope, within_eq_ok]
    exact ⟨_, lowerStatements_of_lowersBody hbody, rfl⟩

/-- The way back for operands. -/
theorem lowerArguments_of_lowersAll {es : List Expr} {d d' : Draft} {xs : List Var} :
    LowersAll es d xs d' → lowerArguments es d = .ok xs d'
  | .nil => rfl
  | .cons hfirst hsettle hrest => by
    simp only [lowerArguments, bind_eq_ok, settle_eq_ok, pure_eq_ok]
    exact ⟨_, _, lower_of_lowers hfirst, _, _, hsettle, _, _, lowerArguments_of_lowersAll hrest,
      rfl, rfl⟩

/-- The way back for statements. -/
theorem lowerStatements_of_lowersBody {es : List Expr} {d d' : Draft} {last x : Var} :
    LowersBody last es d x d' → lowerStatements last es d = .ok x d'
  | .nil => rfl
  | .cons hfirst hrest => by
    simp only [lowerStatements, bind_eq_ok]
    exact ⟨_, _, lower_of_lowers hfirst, lowerStatements_of_lowersBody hrest⟩

end

/-- An expression has code exactly by the rules. -/
theorem lower_eq_ok_iff {e : Expr} {d d' : Draft} {x : Var} :
    lower e d = .ok x d' ↔ Lowers e d x d' :=
  ⟨lowers_of_lower e, lower_of_lowers⟩

/-- There is one code for an expression behind a draft. -/
theorem Lowers.deterministic {e : Expr} {d d' d'' : Draft} {x y : Var} (h : Lowers e d x d')
    (h' : Lowers e d y d'') : x = y ∧ d' = d'' :=
  EStateM.Result.ok.inj ((lower_of_lowers h).symm.trans (lower_of_lowers h'))

/-- Operands as well are lowered in one way only. -/
theorem LowersAll.deterministic {es : List Expr} {d d' d'' : Draft} {xs ys : List Var}
    (h : LowersAll es d xs d') (h' : LowersAll es d ys d'') : xs = ys ∧ d' = d'' :=
  EStateM.Result.ok.inj
    ((lowerArguments_of_lowersAll h).symm.trans (lowerArguments_of_lowersAll h'))

/-! ## Reading the rules backwards -/

section

variable {d d' : Draft} {x : Var} {loc : Location} {op : String} {left right : Expr}

/-- An assignment to a name was lowered by the rule for assignments. -/
theorem Lowers.assign_inv {nameLoc : Location} {n : String}
    (h : Lowers (.binary loc "=" (.name nameLoc n) right) d x d') :
    ∃ y d₁, d.scopes.lookup n = some x ∧ Lowers right d y d₁ ∧ d' = d₁.emit (.copy y x) loc := by
  cases h with
  | assign hcell hright => exact ⟨_, _, hcell, hright, rfl⟩
  | logic hop => exact absurd hop (by decide)
  | operation hassign => exact absurd rfl hassign

/-- A logical operator was lowered by its own rule; which of the two it is settles only how its
    branch goes. -/
theorem Lowers.logic_inv (h : Lowers (.binary loc op left right) d x d')
    (hop : op = "and" ∨ op = "or") :
    ∃ d₁ d₂ d₃ y z rightLabel skipLabel endLabel, Lowers left d y d₁ ∧
      rightLabel = .numbered (op ++ "_right") (d₁.labels + 1) ∧
      skipLabel = .numbered (op ++ "_skip") (d₁.labels + 2) ∧
      endLabel = .numbered (op ++ "_end") (d₁.labels + 3) ∧
      Lowers right (((d₁.withLabels 3).emit (logicBranch op y rightLabel skipLabel) loc).grown.emit
        (.label rightLabel) loc) z d₂ ∧
      d₃ = ((d₂.emit (.copy z d₁.next) loc).emit (.jump endLabel) loc).emit (.label skipLabel) loc ∧
      x = d₁.next ∧
      d' = ((d₃.emitNew (.loadBool (decide (op = "or"))) loc).emit
        (.copy d₃.next d₁.next) loc).emit (.label endLabel) loc := by
  cases h with
  | assign => exact absurd hop (by decide)
  | logic _ hleft hrightLabel hskipLabel hendLabel hright hmerge =>
    exact ⟨_, _, _, _, _, _, _, _, hleft, hrightLabel, hskipLabel, hendLabel, hright, hmerge, rfl,
      rfl⟩
  | operation _ hlogic => exact absurd hop hlogic

/-- Any other operator was lowered as a call of the function that it names. -/
theorem Lowers.operation_inv (h : Lowers (.binary loc op left right) d x d') (hassign : op ≠ "=")
    (hlogic : ¬(op = "and" ∨ op = "or")) :
    ∃ d₁ d₂ d₃ callee y y' z, d.scopes.lookup op = some callee ∧ Lowers left d y d₁ ∧
      Settles y (assigns right) left.location d₁ y' d₂ ∧ Lowers right d₂ z d₃ ∧
      x = d₃.next ∧ d' = d₃.emitNew (.call callee [y', z]) loc := by
  cases h with
  | assign => exact absurd rfl hassign
  | logic hop => exact absurd hop hlogic
  | operation _ _ hcallee hleft hsettle hright =>
    exact ⟨_, _, _, _, _, _, _, hcallee, hleft, hsettle, hright, rfl, rfl⟩

end

/-! ## Whole programs -/

/-- The code of a program: that of its tree, and a call that prints the value if it can be
    printed. -/
inductive LowersProgram (program : Expr) (ty : Ty) (d : Draft) : Draft → Prop
  | silent {x d'} (hprinter : printer? ty = none) (hprogram : Lowers program d x d') :
      LowersProgram program ty d d'
  | prints {name callee x d'} (hprinter : printer? ty = some name)
      (hprogram : Lowers program d x d') (hcallee : d'.scopes.lookup name = some callee) :
      LowersProgram program ty d (d'.emitNew (.call callee [x]) program.location)

/-- A whole program: an expression, and a call that prints its value if it has one to show. -/
theorem lowerProgram_eq_ok {program : Expr} {ty : Ty} {d d' : Draft} {u : Unit} :
    lowerProgram program ty d = .ok u d' ↔ LowersProgram program ty d d' := by
  simp only [lowerProgram, bind_eq_ok]
  constructor
  · rintro ⟨x, d₁, hprogram, h⟩
    rcases hprinter : printer? ty with _ | name <;> rw [hprinter] at h
    · obtain ⟨-, rfl⟩ := pure_eq_ok.1 h
      exact .silent hprinter (lowers_of_lower _ hprogram)
    · simp only [bind_eq_ok, lookup_eq_ok, call_eq_ok, pure_eq_ok] at h
      obtain ⟨callee, _, ⟨hcallee, rfl⟩, _, _, ⟨rfl, rfl⟩, -, rfl⟩ := h
      exact .prints hprinter (lowers_of_lower _ hprogram) hcallee
  · intro h
    cases h with
    | silent hprinter hprogram =>
      refine ⟨_, _, lower_of_lowers hprogram, ?_⟩
      rw [hprinter]
      rfl
    | prints hprinter hprogram hcallee =>
      refine ⟨_, _, lower_of_lowers hprogram, ?_⟩
      rw [hprinter]
      simp only [bind_eq_ok, lookup_eq_ok, call_eq_ok, pure_eq_ok]
      exact ⟨_, _, ⟨hcallee, rfl⟩, _, _, ⟨rfl, rfl⟩, trivial, rfl⟩

/-- Generated code is what stands in the draft at the end. -/
theorem generate_eq_ok {reserved : List String} {program : Expr} {ty : Ty} {code : List Instr} :
    generate reserved program ty = .ok code ↔
      ∃ d, LowersProgram program ty (.start reserved) d ∧ d.code.toList = code := by
  unfold generate
  rcases hlower : lowerProgram program ty (.start reserved) with ⟨u, d⟩ | ⟨e, d⟩
  · rw [Except.ok.injEq]
    refine ⟨fun hcode => ⟨d, lowerProgram_eq_ok.1 hlower, hcode⟩, ?_⟩
    rintro ⟨d', hprogram, hcode⟩
    have hsame := hlower.symm.trans (lowerProgram_eq_ok (u := ()).2 hprogram)
    rw [(EStateM.Result.ok.inj hsame).2, hcode]
  · refine iff_of_false (by simp) ?_
    rintro ⟨d', hprogram, -⟩
    have hsame := hlower.symm.trans (lowerProgram_eq_ok (u := ()).2 hprogram)
    contradiction

end Lowering

end ExprLang
