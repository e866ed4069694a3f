/-
  KEPT SCOPES: what a pass over a tree does to the scopes that it is given, however it ends.

  A pass binds names in the innermost scope only, and of a well-formed tree only a statement of a
  block does so.  The block has opened that scope and closes it again, also when a statement stops
  the pass.  So a block in which each statement keeps to the scopes around the innermost one keeps
  to the scopes around the block, and no other node changes more than its children do
  (`keeps_of_nodes`).

  Checking and lowering leave the scopes as they are.  Evaluating writes to them: it overwrites
  what is bound to the targets of assignments.  How much is allowed is a `Limit`.
-/
import ExprLang.Proofs.ScopingRule
import ExprLang.Proofs.WellFormedTrees

namespace ExprLang

variable {ε σ α β γ : Type}

/-! ## Both endings alike -/

/-- The state that a computation leaves behind, whether it ends in a result or in an error. -/
def stateBehind (act : EStateM ε σ α) (s : σ) : σ :=
  match act s with
  | .ok _ s' => s'
  | .error _ s' => s'

/-- What is asked of both endings is asked of the state behind. -/
theorem leads_alike {P : σ → Prop} {act : EStateM ε σ α} {s : σ} :
    Leads act s (fun _ => P) (fun _ => P) ↔ P (stateBehind act s) := by
  unfold Leads stateBehind
  cases act s <;> exact Iff.rfl

/-! ## Limits -/

namespace Scopes

variable {s t u : Scopes α}

/-- What is done to the scopes around the innermost one, which may change as it likes. -/
def Around (change : Scopes α → Scopes α → Prop) : Scopes α → Scopes α → Prop
  | .child _ outer, .child _ outer' => change outer outer'
  | .child _ _, .root _ => False
  | .root _, _ => True

/-- How much a chain of scopes may be changed, in any number of steps. -/
structure Limit (α : Type) where
  Allows : Scopes α → Scopes α → Prop
  refl : ∀ s, Allows s s
  trans : ∀ {s t u}, Allows s t → Allows t u → Allows s u
  /-- What is allowed for a chain is allowed for the scopes around its innermost one. -/
  outer : ∀ {s t}, Allows s t → Around Allows s t

namespace Limit

/-- Nothing may be changed. -/
def nothing : Limit α where
  Allows := Eq
  refl _ := rfl
  trans := Eq.trans
  outer {s t} h := by
    subst h
    cases s with
    | root frame => trivial
    | child frame outer => rfl

/-- The innermost scope may be changed as well. -/
def around (limit : Limit α) : Limit α where
  Allows := Around limit.Allows
  refl s := by
    cases s with
    | root frame => trivial
    | child frame outer => exact limit.refl outer
  trans {s t u} h h' := by
    cases s with
    | root frame => trivial
    | child frame outer =>
      cases t with
      | root frame' => exact h.elim
      | child frame' outer' =>
        cases u with
        | root frame'' => exact h'.elim
        | child frame'' outer'' => exact limit.trans h h'
  outer {s t} h := by
    cases s with
    | root frame => trivial
    | child frame outer =>
      cases t with
      | root frame' => exact h.elim
      | child frame' outer' => exact limit.outer h

/-- A scope that was opened takes its changes with it. -/
theorem pop_of_around {limit : Limit α} (h : limit.around.Allows s.push t) :
    limit.Allows s t.pop := by
  cases t with
  | root frame => exact h.elim
  | child frame outer => exact h

/-- A declaration goes into the innermost scope, which a limit on the scopes around it does not
    cover. -/
theorem around_define (limit : Limit α) (n : String) (a : α) :
    limit.around.Allows s (s.define n a) := by
  cases s with
  | root frame => trivial
  | child frame outer => exact limit.refl outer

end Limit

/-- The second chain binds the same names, scope by scope, and only those that are `written` to
    something else. -/
structure SameBut (written : String → Prop) (s t : Scopes α) : Prop extends SameNames s t where
  kept : ∀ l n, ¬written n → t.binding l n = s.binding l n

variable {written : String → Prop}

/-- Two passes may write the same variables one after the other. -/
theorem SameBut.trans (h : s.SameBut written t) (h' : t.SameBut written u) :
    s.SameBut written u where
  toSameNames := h.toSameNames.trans h'.toSameNames
  kept l n hn := (h'.kept l n hn).trans (h.kept l n hn)

/-- Leaving a scope on both sides leaves what is around it. -/
theorem SameBut.pop (h : s.SameBut written t) (hinner : 0 < s.depth) :
    s.pop.SameBut written t.pop where
  toSameNames := h.toSameNames.pop hinner
  kept l n hn := by
    rw [binding_pop hinner, binding_pop (h.depth ▸ hinner), h.depth, h.kept l n hn]

/-- Writing to a variable that may be written. -/
theorem SameBut.modify {n : String} (hn : written n) (f : α → α) :
    s.SameBut written (s.modify n f) where
  toSameNames := .modify s n f
  kept l m hm := by
    rw [binding_modify, if_neg]
    rintro ⟨-, rfl⟩
    exact hm hn

/-- What is bound to some names may be overwritten. -/
def Limit.values (written : String → Prop) : Limit α where
  Allows := SameBut written
  refl s := ⟨.refl s, fun _ _ _ => rfl⟩
  trans := SameBut.trans
  outer {s t} h := by
    cases s with
    | root frame => trivial
    | child frame outer =>
      cases t with
      | root frame' => exact absurd h.depth (Nat.succ_ne_zero _).symm
      | child frame' outer' => exact h.pop (Nat.succ_pos _)

end Scopes

/-! ## Passes within a limit -/

namespace Pass

variable {p : Pass ε σ β} {limit : Scopes.Limit β}

/-- A computation keeps its changes of the scopes within a limit, however it ends. -/
def Keeps (p : Pass ε σ β) (limit : Scopes.Limit β) (act : EStateM ε σ α) : Prop :=
  ∀ s, Leads act s (fun _ s' => limit.Allows (p.scopes s) (p.scopes s'))
    fun _ s' => limit.Allows (p.scopes s) (p.scopes s')

/-- What is kept is kept in the state behind, success or not. -/
theorem Keeps.behind {act : EStateM ε σ α} (h : p.Keeps limit act) (s : σ) :
    limit.Allows (p.scopes s) (p.scopes (stateBehind act s)) :=
  (leads_alike (P := fun s' => limit.Allows (p.scopes s) (p.scopes s'))).1 (h s)

/-- A step that leaves the scopes alone. -/
theorem keeps_still {act : EStateM ε σ α}
    (h : ∀ s, p.scopes (stateBehind act s) = p.scopes s) : p.Keeps limit act := fun s =>
  (leads_alike (P := fun s' => limit.Allows (p.scopes s) (p.scopes s'))).2
    ((h s).symm ▸ limit.refl _)

/-- Nothing is done to the scopes. -/
theorem keeps_pure (a : α) : p.Keeps limit (pure a) := keeps_still fun _ => rfl

/-- Failing does nothing to them either. -/
theorem keeps_throw (e : ε) : p.Keeps limit (throw e : EStateM ε σ α) := keeps_still fun _ => rfl

/-- Two steps within the limit are within it together, as the limit is transitive. -/
theorem Keeps.bind {act : EStateM ε σ α} {k : α → EStateM ε σ γ} (h : p.Keeps limit act)
    (hk : ∀ a, p.Keeps limit (k a)) : p.Keeps limit (act >>= k) := by
  intro s
  refine leads_bind.2 ((h s).mono (fun a t hact => ?_) fun _ _ hact => hact)
  exact (hk a t).mono (fun _ _ => limit.trans hact) fun _ _ => limit.trans hact

/-- Either branch stays within the limit. -/
theorem Keeps.ite {c : Prop} [Decidable c] {act act' : EStateM ε σ α} (h : p.Keeps limit act)
    (h' : p.Keeps limit act') : p.Keeps limit (if c then act else act') := by
  split
  · exact h
  · exact h'

/-- What is allowed inside a scope is allowed around it. -/
theorem Keeps.around {act : EStateM ε σ α} (h : p.Keeps limit act) :
    p.Keeps limit.around act :=
  fun s => (h s).mono (fun _ _ => limit.outer) fun _ _ => limit.outer

/-- A step in a scope of its own may do to that scope what it likes. -/
theorem Keeps.within {act : EStateM ε σ α} {enter leave : σ → σ}
    (h : p.Keeps limit.around act) (henter : ∀ s, p.scopes (enter s) = (p.scopes s).push)
    (hleave : ∀ s, p.scopes (leave s) = (p.scopes s).pop) :
    p.Keeps limit (within enter leave act) := by
  intro s
  have hpop : ∀ s', limit.around.Allows (p.scopes (enter s)) (p.scopes s') →
      limit.Allows (p.scopes s) (p.scopes (leave s')) := by
    intro s' hallows
    rw [henter] at hallows
    rw [hleave]
    exact Scopes.Limit.pop_of_around hallows
  exact leads_within.2 ((h (enter s)).mono (fun _ => hpop) fun _ => hpop)

/-- Statements are run one after the other. -/
theorem keeps_statements {run : Expr → EStateM ε σ α} {body : α → List Expr → EStateM ε σ α}
    (hnil : ∀ last, body last [] = pure last)
    (hcons : ∀ last e rest, body last (e :: rest) = run e >>= fun a => body a rest)
    {es : List Expr} (h : ∀ e ∈ es, p.Keeps limit (run e)) (last : α) :
    p.Keeps limit (body last es) := by
  induction es generalizing last with
  | nil => exact hnil last ▸ keeps_pure last
  | cons e rest ih =>
    obtain ⟨he, hrest⟩ := List.forall_mem_cons.1 h
    exact hcons last e rest ▸ he.bind fun a => ih hrest a

/-- A pass keeps within a limit on a well-formed tree when a declaration changes the innermost
    scope only, a block confines its statements, and any other node does what its children do. -/
theorem keeps_of_nodes {run : Expr → EStateM ε σ α} {root : Expr} (hroot : root.WellFormed)
    (hdeclaration : ∀ loc n value, p.Keeps limit (run value) →
      p.Keeps limit.around (run (.var loc n value)))
    (hblock : ∀ loc statements, (∀ e ∈ statements, p.Keeps limit.around (run e)) →
      p.Keeps limit (run (.block loc statements)))
    (hvalue : ∀ node ∈ root.nodes, node.isDeclaration = false → node.isBlock = false →
      (∀ child ∈ node.children, p.Keeps limit (run child)) → p.Keeps limit (run node)) :
    p.Keeps limit (run root) := by
  have hnode : ∀ node ∈ root.nodes, p.Keeps limit.around (run node) ∧
      (node.isDeclaration = false → p.Keeps limit (run node)) := by
    intro node
    induction node using Expr.childwise with
    | step node ih =>
      intro hnode
      have hchild : ∀ child ∈ node.children, p.Keeps limit.around (run child) ∧
          (child.isDeclaration = false → p.Keeps limit (run child)) :=
        fun child hchild => ih child hchild (Expr.child_mem_nodes hnode hchild)
      -- declarations stand in blocks only
      have hplain : node.isBlock = false → ∀ child ∈ node.children, p.Keeps limit (run child) := by
        intro hother child hmem
        refine (hchild child hmem).2 (Bool.eq_false_iff.2 fun hvar => ?_)
        exact Bool.noConfusion ((hroot.declaration.2 node hnode child hmem hvar).symm.trans hother)
      cases node with
      | var loc n value =>
        exact ⟨hdeclaration loc n value (hplain rfl value List.mem_cons_self), nofun⟩
      | block loc statements =>
        have hkeeps := hblock loc statements fun e he => (hchild e he).1
        exact ⟨hkeeps.around, fun _ => hkeeps⟩
      | _ =>
        have hkeeps := hvalue _ hnode rfl rfl (hplain rfl)
        exact ⟨hkeeps.around, fun _ => hkeeps⟩
  exact (hnode root root.self_mem_nodes).2 hroot.declaration.1

end Pass

/-! ## Checking -/

namespace Typing

open ExprLang.Pass

variable {limit : Scopes.Limit Ty} {root : Expr}

/-- Looking up and comparing do not touch the scopes. -/
theorem keeps_lookup (n : String) (loc : Location) : pass.Keeps limit (lookup n loc) := by
  refine keeps_still fun Γ => ?_
  unfold stateBehind lookup
  cases Γ.lookup n <;> rfl

theorem keeps_expect (role : Role) (expected found : Ty) (loc : Location) :
    pass.Keeps limit (expect role expected found loc) := .ite (keeps_pure _) (keeps_throw _)

theorem keeps_operatorType (op : String) (loc : Location) :
    pass.Keeps limit (operatorType op loc) := by
  refine (keeps_lookup op loc).bind fun found => ?_
  cases found with
  | func params result => exact keeps_pure _
  | _ => exact keeps_throw _

/-- Arguments are checked one after the other, each within the limit. -/
theorem keeps_checkArguments (function : String) : ∀ (number : Nat) (params : List Ty)
    (es : List Expr), (∀ e ∈ es, pass.Keeps limit (check e)) →
    pass.Keeps limit (checkArguments function number params es)
  | _, [], [], _ | _, [], _ :: _, _ | _, _ :: _, [], _ => keeps_pure _
  | number, param :: params, e :: rest, h => by
    obtain ⟨he, hrest⟩ := List.forall_mem_cons.1 h
    refine he.bind fun found => (keeps_expect _ _ _ _).bind fun _ => ?_
    exact keeps_checkArguments function (number + 1) params rest hrest

/-- Checking a node changes no more than checking what is below it. -/
theorem keeps_node (hroot : root.WellFormed) : ∀ node ∈ root.nodes, node.isDeclaration = false →
    node.isBlock = false → (∀ child ∈ node.children, pass.Keeps limit (check child)) →
    pass.Keeps limit (check node) := by
  intro node hnode hvalue hsingle h
  cases node with
  | int | bool | unit => exact keeps_pure _
  | name loc n => exact keeps_lookup n loc
  | unary loc op operand =>
    have hoperand := List.forall_mem_singleton.1 h
    rw [check]
    refine hoperand.bind fun operandType => ?_
    refine (keeps_operatorType _ loc).bind fun signature => ?_
    obtain ⟨_ | ⟨param, _ | ⟨_, _⟩⟩, result⟩ := signature
    · exact keeps_throw _
    · exact (keeps_expect _ _ _ _).bind fun _ => keeps_pure _
    · exact keeps_throw _
  | binary loc op left right =>
    simp only [Expr.children, List.forall_mem_cons] at h
    obtain ⟨hleft, hright, -⟩ := h
    by_cases hassign : op = "="
    · subst hassign
      -- the target is a name, and is not checked as a value
      obtain ⟨nameLoc, n, rfl⟩ := hroot.exists_target hnode
      rw [check_assign]
      refine (keeps_lookup n nameLoc).bind fun variableType => hright.bind fun valueType => ?_
      exact (keeps_expect _ _ _ _).bind fun _ => keeps_pure _
    · rw [check_operation hassign]
      refine hleft.bind fun leftType => hright.bind fun rightType => ?_
      refine .ite (.ite (keeps_pure _) (keeps_throw _)) ?_
      refine (keeps_operatorType op loc).bind fun signature => ?_
      obtain ⟨_ | ⟨leftParam, _ | ⟨rightParam, _ | ⟨_, _⟩⟩⟩, result⟩ := signature
      · exact keeps_throw _
      · exact keeps_throw _
      · exact (keeps_expect _ _ _ _).bind fun _ => (keeps_expect _ _ _ _).bind fun _ => keeps_pure _
      · exact keeps_throw _
  | ifThen loc condition thenBranch =>
    simp only [Expr.children, List.forall_mem_cons] at h
    obtain ⟨hcondition, hthen, -⟩ := h
    rw [check]
    refine hcondition.bind fun conditionType => (keeps_expect _ _ _ _).bind fun _ => ?_
    refine hthen.bind fun thenType => ?_
    exact (keeps_expect _ _ _ _).bind fun _ => keeps_pure _
  | ifElse loc condition thenBranch elseBranch =>
    simp only [Expr.children, List.forall_mem_cons] at h
    obtain ⟨hcondition, hthen, helse, -⟩ := h
    rw [check]
    refine hcondition.bind fun conditionType => (keeps_expect _ _ _ _).bind fun _ => ?_
    refine hthen.bind fun thenType => helse.bind fun elseType => ?_
    exact .ite (keeps_pure _) (keeps_throw _)
  | call loc function arguments =>
    rw [check]
    obtain ⟨hfunction, harguments⟩ := List.forall_mem_cons.1 h
    refine hfunction.bind fun found => ?_
    cases found with
    | func params result =>
      refine .ite ?_ (keeps_throw _)
      exact (keeps_checkArguments _ _ params arguments harguments).bind fun _ => keeps_pure _
    | _ => exact keeps_throw _
  | var | block => contradiction

/-- Checking changes nothing. -/
theorem keeps_check (hroot : root.WellFormed) : pass.Keeps .nothing (check root) := by
  refine keeps_of_nodes hroot (fun loc n value hvalue => ?_) (fun loc statements h => ?_)
    (keeps_node hroot)
  · rw [check]
    refine hvalue.around.bind fun ty => Keeps.bind (fun Γ => ?_) fun _ => keeps_pure _
    exact Scopes.Limit.around_define _ n ty
  · rw [check]
    have hbody : pass.Keeps _ (checkStatements .unit statements) :=
      keeps_statements (fun _ => rfl) (fun _ _ _ => rfl) h .unit
    exact hbody.within (fun _ => rfl) fun _ => rfl

end Typing

/-! ## Lowering -/

namespace Lowering

open ExprLang.Pass

variable {limit : Scopes.Limit Var} {root : Expr}

/-- The same for lowering: looking up, writing and minting do not touch the scopes. -/
theorem keeps_lookup (n : String) (loc : Location) : pass.Keeps limit (lookup n loc) := by
  refine keeps_still fun d => ?_
  unfold stateBehind lookup
  cases d.scopes.lookup n <;> rfl

theorem keeps_emit (action : Action) (loc : Location) : pass.Keeps limit (emit action loc) :=
  keeps_still fun _ => rfl

theorem keeps_mint : pass.Keeps limit mint := keeps_still fun _ => rfl

theorem keeps_mintLabel (stem : String) : pass.Keeps limit (mintLabel stem) :=
  keeps_still fun _ => rfl

theorem keeps_call (callee : Var) (xs : List Var) (loc : Location) :
    pass.Keeps limit (call callee xs loc) :=
  keeps_mint.bind fun _ => (keeps_emit _ loc).bind fun _ => keeps_pure _

/-- An operand is settled by a copy, which binds no name. -/
theorem keeps_settle (x : Var) (overwritten : Bool) (loc : Location) :
    pass.Keeps limit (settle x overwritten loc) := by
  have hget : pass.Keeps limit (get : Lower Draft) := keeps_still fun _ => rfl
  refine hget.bind fun d => .ite ?_ (keeps_pure x)
  exact keeps_mint.bind fun _ => (keeps_emit _ loc).bind fun _ => keeps_pure _

/-- Operands are lowered one after the other, each within the limit. -/
theorem keeps_lowerArguments : ∀ es : List Expr, (∀ e ∈ es, pass.Keeps limit (lower e)) →
    pass.Keeps limit (lowerArguments es)
  | [], _ => keeps_pure _
  | e :: rest, h => by
    obtain ⟨he, hrest⟩ := List.forall_mem_cons.1 h
    refine he.bind fun v => (keeps_settle v _ _).bind fun v' => ?_
    exact (keeps_lowerArguments rest hrest).bind fun vs => keeps_pure _

/-- Lowering a node changes no more than lowering what is below it. -/
theorem keeps_node (hroot : root.WellFormed) : ∀ node ∈ root.nodes, node.isDeclaration = false →
    node.isBlock = false → (∀ child ∈ node.children, pass.Keeps limit (lower child)) →
    pass.Keeps limit (lower node) := by
  intro node hnode hvalue hsingle h
  cases node with
  | int | bool => exact keeps_mint.bind fun _ => (keeps_emit _ _).bind fun _ => keeps_pure _
  | unit => exact keeps_pure _
  | name loc n => exact keeps_lookup n loc
  | unary loc op operand =>
    have hoperand := List.forall_mem_singleton.1 h
    rw [lower]
    refine (keeps_lookup _ loc).bind fun callee => ?_
    exact hoperand.bind fun v => keeps_call callee [v] loc
  | binary loc op left right =>
    simp only [Expr.children, List.forall_mem_cons] at h
    obtain ⟨hleft, hright, -⟩ := h
    by_cases hassign : op = "="
    · subst hassign
      obtain ⟨nameLoc, n, rfl⟩ := hroot.exists_target hnode
      rw [lower_assign]
      refine (keeps_lookup n nameLoc).bind fun cell => hright.bind fun v => ?_
      exact (keeps_emit _ loc).bind fun _ => keeps_pure cell
    · by_cases hlogic : op = "and" ∨ op = "or"
      · rw [lower_logic hlogic]
        refine hleft.bind fun v => (keeps_mintLabel _).bind fun rightLabel => ?_
        refine (keeps_mintLabel _).bind fun skipLabel => (keeps_mintLabel _).bind fun endLabel => ?_
        refine (keeps_emit _ loc).bind fun _ => keeps_mint.bind fun result => ?_
        refine (keeps_emit _ loc).bind fun _ => hright.bind fun w => ?_
        exact keeps_still fun _ => rfl
      · rw [lower_operation hassign hlogic]
        refine (keeps_lookup op loc).bind fun callee => hleft.bind fun v => ?_
        refine (keeps_settle v _ _).bind fun v' => hright.bind fun w => ?_
        exact keeps_call callee [v', w] loc
  | ifThen loc condition thenBranch =>
    simp only [Expr.children, List.forall_mem_cons] at h
    obtain ⟨hcondition, hthen, -⟩ := h
    rw [lower]
    refine hcondition.bind fun v => ?_
    refine (keeps_mintLabel _).bind fun thenLabel => (keeps_mintLabel _).bind fun endLabel => ?_
    refine (keeps_emit _ loc).bind fun _ => (keeps_emit _ loc).bind fun _ => ?_
    refine hthen.bind fun _ => ?_
    exact (keeps_emit _ loc).bind fun _ => keeps_pure _
  | ifElse loc condition thenBranch elseBranch =>
    simp only [Expr.children, List.forall_mem_cons] at h
    obtain ⟨hcondition, hthen, helse, -⟩ := h
    rw [lower]
    refine hcondition.bind fun v => ?_
    refine (keeps_mintLabel _).bind fun thenLabel => (keeps_mintLabel _).bind fun elseLabel => ?_
    refine (keeps_mintLabel _).bind fun endLabel => (keeps_emit _ loc).bind fun _ => ?_
    refine (keeps_emit _ loc).bind fun _ => ?_
    refine hthen.bind fun thenVar => .ite ?_ ?_
    · refine (keeps_emit _ loc).bind fun _ => (keeps_emit _ loc).bind fun _ => ?_
      exact helse.bind fun _ => (keeps_emit _ loc).bind fun _ => keeps_pure _
    · refine keeps_mint.bind fun result => (keeps_emit _ loc).bind fun _ => ?_
      refine (keeps_emit _ loc).bind fun _ => (keeps_emit _ loc).bind fun _ => ?_
      refine helse.bind fun elseVar => (keeps_emit _ loc).bind fun _ => ?_
      exact (keeps_emit _ loc).bind fun _ => keeps_pure _
  | call loc function arguments =>
    rw [lower]
    obtain ⟨hfunction, harguments⟩ := List.forall_mem_cons.1 h
    refine hfunction.bind fun callee => (keeps_settle callee _ _).bind fun callee' => ?_
    exact (keeps_lowerArguments arguments harguments).bind fun xs => keeps_call callee' xs loc
  | var | block => contradiction

/-- Lowering leaves the scopes of the draft as they are. -/
theorem keeps_lower (hroot : root.WellFormed) : pass.Keeps .nothing (lower root) := by
  refine keeps_of_nodes hroot (fun loc n value hvalue => ?_) (fun loc statements h => ?_)
    (keeps_node hroot)
  · rw [lower]
    refine hvalue.around.bind fun v => keeps_mint.bind fun cell => (keeps_emit _ loc).bind fun _ =>
      Keeps.bind (fun d => ?_) fun _ => keeps_pure _
    exact Scopes.Limit.around_define _ n cell
  · rw [lower]
    have hbody : pass.Keeps _ (lowerStatements .unit statements) :=
      keeps_statements (fun _ => rfl) (fun _ _ _ => rfl) h .unit
    exact hbody.within (fun _ => rfl) fun _ => rfl

end Lowering

/-! ## Evaluating -/

namespace Eval

open ExprLang.Pass

variable {limit : Scopes.Limit Value} {root : Expr}

/-- The same for the evaluator. -/
theorem keeps_lookup (n : String) (loc : Location) : pass.Keeps limit (lookup n loc) := by
  refine keeps_still fun s => ?_
  unfold stateBehind lookup
  cases s.scopes.lookup n <;> rfl

theorem keeps_asBuiltin (v : Value) (loc : Location) : pass.Keeps limit (asBuiltin v loc) := by
  cases v with
  | builtin b => exact keeps_pure b
  | _ => exact keeps_throw _

theorem keeps_asBool (v : Value) (loc : Location) : pass.Keeps limit (asBool v loc) := by
  cases v with
  | bool b => exact keeps_pure b
  | _ => exact keeps_throw _

/-- An operator is looked up and asked whether it is a function. -/
theorem keeps_operator (op : String) (loc : Location) : pass.Keeps limit (operator op loc) :=
  (keeps_lookup op loc).bind fun v => keeps_asBuiltin v loc

/-- A builtin sees its arguments and the output only. -/
theorem keeps_apply (b : Builtin) (args : List Value) (loc : Location) :
    pass.Keeps limit (apply b args loc) := by
  refine keeps_still fun s => ?_
  unfold stateBehind apply
  rcases b.apply args s.output with cause | ⟨v, output⟩ <;> rfl

/-- An assignment writes to its target, or finds nothing to write to. -/
theorem keeps_assign {written : String → Prop} {n : String} (hn : written n) (v : Value)
    (loc : Location) : pass.Keeps (.values written) (assign n v loc) := by
  intro s
  by_cases hbound : s.scopes.contains n = true
  · exact (leads_assign hbound).2 (.modify hn _)
  · simp only [Leads, assign, Scopes.assign?, hbound]
    exact (Scopes.Limit.values written).refl _

/-- Arguments are evaluated one after the other, each within the limit. -/
theorem keeps_evalArguments : ∀ es : List Expr, (∀ e ∈ es, pass.Keeps limit (eval e)) →
    pass.Keeps limit (evalArguments es)
  | [], _ => keeps_pure _
  | e :: rest, h => by
    obtain ⟨he, hrest⟩ := List.forall_mem_cons.1 h
    exact he.bind fun v => (keeps_evalArguments rest hrest).bind fun vs => keeps_pure _

/-- Evaluating a node writes to the targets of the tree, and where evaluating what is below it
    does. -/
theorem keeps_node (hroot : root.WellFormed) : ∀ node ∈ root.nodes, node.isDeclaration = false →
    node.isBlock = false →
    (∀ child ∈ node.children, pass.Keeps (.values (· ∈ root.targets)) (eval child)) →
    pass.Keeps (.values (· ∈ root.targets)) (eval node) := by
  intro node hnode hvalue hsingle h
  cases node with
  | int | bool | unit => exact keeps_pure _
  | name loc n => exact keeps_lookup n loc
  | unary loc op operand =>
    have hoperand := List.forall_mem_singleton.1 h
    rw [eval]
    refine (keeps_operator _ loc).bind fun b => ?_
    exact hoperand.bind fun v => keeps_apply b [v] loc
  | binary loc op left right =>
    simp only [Expr.children, List.forall_mem_cons] at h
    obtain ⟨hleft, hright, -⟩ := h
    by_cases hassign : op = "="
    · subst hassign
      obtain ⟨nameLoc, n, rfl⟩ := hroot.exists_target hnode
      rw [eval_assign]
      refine hright.bind fun v => ?_
      exact (keeps_assign (Expr.mem_targets hnode) v nameLoc).bind fun _ => keeps_pure v
    · by_cases hlogic : op = "and" ∨ op = "or"
      · rw [eval_logic hlogic]
        refine hleft.bind fun v => (keeps_asBool v _).bind fun decided => .ite (keeps_pure _) ?_
        exact hright.bind fun w => (keeps_asBool w _).bind fun _ => keeps_pure _
      · rw [eval_operation hassign hlogic]
        refine (keeps_operator op loc).bind fun b => hleft.bind fun v => hright.bind fun w => ?_
        exact keeps_apply b [v, w] loc
  | ifThen loc condition thenBranch =>
    simp only [Expr.children, List.forall_mem_cons] at h
    obtain ⟨hcondition, hthen, -⟩ := h
    rw [eval]
    refine hcondition.bind fun v => (keeps_asBool v _).bind fun holds => .ite ?_ (keeps_pure _)
    exact hthen.bind fun _ => keeps_pure _
  | ifElse loc condition thenBranch elseBranch =>
    simp only [Expr.children, List.forall_mem_cons] at h
    obtain ⟨hcondition, hthen, helse, -⟩ := h
    rw [eval]
    exact hcondition.bind fun v => (keeps_asBool v _).bind fun holds => .ite hthen helse
  | call loc function arguments =>
    rw [eval]
    obtain ⟨hfunction, harguments⟩ := List.forall_mem_cons.1 h
    refine hfunction.bind fun f => (keeps_asBuiltin f _).bind fun b => ?_
    exact (keeps_evalArguments arguments harguments).bind fun args => keeps_apply b args loc
  | var | block => contradiction

/-- Evaluating writes to the targets of the tree only. -/
theorem keeps_eval (hroot : root.WellFormed) :
    pass.Keeps (.values (· ∈ root.targets)) (eval root) := by
  refine keeps_of_nodes hroot (fun loc n value hvalue => ?_) (fun loc statements h => ?_)
    (keeps_node hroot)
  · rw [eval]
    refine hvalue.around.bind fun v => Keeps.bind (fun s => ?_) fun _ => keeps_pure _
    exact Scopes.Limit.around_define _ n v
  · rw [eval]
    have hbody : pass.Keeps _ (evalStatements .unit statements) :=
      keeps_statements (fun _ => rfl) (fun _ _ _ => rfl) h .unit
    exact hbody.within (fun _ => rfl) fun _ => rfl

end Eval

/-! ## Parsed programs -/

/-- A pass over a parsed program leaves the scopes that it is given intact, whether it succeeds or
    fails.  Checking and lowering change nothing in them; evaluating binds no other names there,
    and changes only what is bound to targets of assignments. -/
theorem scopes_kept_of_parse {tokens : List Token} {e : Expr}
    (h : Grammar.parse tokens = .ok (some e)) :
    (∀ Γ, stateBehind (Typing.check e) Γ = Γ) ∧
    (∀ d, (stateBehind (Lowering.lower e) d).scopes = d.scopes) ∧
    ∀ s, s.scopes.SameNames (stateBehind (Eval.eval e) s).scopes ∧
      ∀ level n, n ∉ e.targets →
        (stateBehind (Eval.eval e) s).scopes.binding level n = s.scopes.binding level n := by
  have hformed : e.WellFormed :=
    Expr.wellFormed_of_fits (fun _ hn => hn.2) (Grammar.fits_of_parse_any h)
  refine ⟨fun Γ => ?_, fun d => ?_, fun s => ?_⟩
  · exact ((Typing.keeps_check hformed).behind Γ).symm
  · exact ((Lowering.keeps_lower hformed).behind d).symm
  · have hsame := (Eval.keeps_eval hformed).behind s
    exact ⟨hsame.toSameNames, hsame.kept⟩

/-- `{ var z = 2; x = z; x / 0 }` stops behind the assignment: the `x` outside has changed, the `z`
    outside has not. -/
theorem scopes_kept_of_parse_division : ∃ e s s', Grammar.parse
      [⟨.punctuation, "\x7b", .of 1 1⟩, ⟨.identifier, "var", .of 1 3⟩, ⟨.identifier, "z", .of 1 7⟩,
       ⟨.operator, "=", .of 1 9⟩, ⟨.integer, "2", .of 1 11⟩, ⟨.punctuation, ";", .of 1 12⟩,
       ⟨.identifier, "x", .of 1 14⟩, ⟨.operator, "=", .of 1 16⟩, ⟨.identifier, "z", .of 1 18⟩,
       ⟨.punctuation, ";", .of 1 19⟩, ⟨.identifier, "x", .of 1 21⟩, ⟨.operator, "/", .of 1 23⟩,
       ⟨.integer, "0", .of 1 25⟩, ⟨.punctuation, "\x7d", .of 1 27⟩] = .ok (some e) ∧
    Eval.eval e s = .error (.fault .divisionByZero (.of 1 23)) s' ∧
    s.scopes.SameNames s'.scopes ∧
    s.scopes.binding 1 "x" = some (.int 1) ∧ s'.scopes.binding 1 "x" = some (.int 2) ∧
    s.scopes.binding 1 "z" = some (.int 5) ∧ s'.scopes.binding 1 "z" = some (.int 5) ∧
    stateBehind (Typing.check e) Typing.rootScopes = Typing.rootScopes ∧
    (stateBehind (Lowering.lower e) (Draft.start [])).scopes = (Draft.start []).scopes := by
  have hparse : Grammar.parse
      [⟨.punctuation, "\x7b", .of 1 1⟩, ⟨.identifier, "var", .of 1 3⟩, ⟨.identifier, "z", .of 1 7⟩,
       ⟨.operator, "=", .of 1 9⟩, ⟨.integer, "2", .of 1 11⟩, ⟨.punctuation, ";", .of 1 12⟩,
       ⟨.identifier, "x", .of 1 14⟩, ⟨.operator, "=", .of 1 16⟩, ⟨.identifier, "z", .of 1 18⟩,
       ⟨.punctuation, ";", .of 1 19⟩, ⟨.identifier, "x", .of 1 21⟩, ⟨.operator, "/", .of 1 23⟩,
       ⟨.integer, "0", .of 1 25⟩, ⟨.punctuation, "\x7d", .of 1 27⟩] = .ok (some (.block (.of 1 1)
        [.var (.of 1 3) "z" (.int (.of 1 11) 2),
         .binary (.of 1 16) "=" (.name (.of 1 14) "x") (.name (.of 1 18) "z"),
         .binary (.of 1 23) "/" (.name (.of 1 21) "x") (.int (.of 1 25) 0)])) := by
    with_unfolding_all rfl
  obtain ⟨hcheck, hlower, heval⟩ := scopes_kept_of_parse hparse
  have hrun : Eval.eval (.block (.of 1 1) [.var (.of 1 3) "z" (.int (.of 1 11) 2),
      .binary (.of 1 16) "=" (.name (.of 1 14) "x") (.name (.of 1 18) "z"),
      .binary (.of 1 23) "/" (.name (.of 1 21) "x") (.int (.of 1 25) 0)])
      ⟨.child [("x", .int 1), ("z", .int 5)] Eval.rootScopes, {}⟩ =
      .error (.fault .divisionByZero (.of 1 23))
        ⟨.child [("x", .int 2), ("z", .int 5)] Eval.rootScopes, {}⟩ := by cbv
  obtain ⟨hsame, hkept⟩ := heval ⟨.child [("x", .int 1), ("z", .int 5)] Eval.rootScopes, {}⟩
  have htargets : (Expr.block (.of 1 1) [.var (.of 1 3) "z" (.int (.of 1 11) 2),
      .binary (.of 1 16) "=" (.name (.of 1 14) "x") (.name (.of 1 18) "z"),
      .binary (.of 1 23) "/" (.name (.of 1 21) "x") (.int (.of 1 25) 0)]).targets = ["x"] := by cbv
  have hkept := hkept 1 "z" (by simp [htargets])
  rw [stateBehind, hrun] at hsame hkept
  exact ⟨_, _, _, hparse, hrun, hsame, rfl, rfl, rfl, hkept, hcheck _, hlower _⟩

end ExprLang
