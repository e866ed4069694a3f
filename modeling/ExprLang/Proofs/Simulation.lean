/-
  SIMULATION: executing the code of an expression does what evaluating the expression does.

  Evaluator and machine are followed side by side.  `Mirror` is what they have in common between
  two expressions: the machine has come to the end of a draft, its output is that of the
  evaluator, and its store is linked to the values in scope.  Behind an expression `Gives` adds
  the value, in the variable that lowering has named, and `Fails` is the other ending: the machine
  is stuck at a call whose builtin has the fault that stops the evaluator.

  `leads_of_lowers` is an induction on typing derivations.  Types are needed twice: for what an
  operator is bound to, which the evaluator looks up before its operands and the machine behind
  them, and for conditionals whose branches are merged only when they have a value.
-/
import ExprLang.Proofs.StoreLinks
import ExprLang.Proofs.TypeSoundness

namespace ExprLang

open Machine Draft Lowering Typing

/-- The machine has come to the end of a draft when the evaluator has come to a state. -/
structure Mirror (code : List Instr) (start : Machine.State) (d : Draft) (s : Eval.State)
    (σ : Store) : Prop where
  steps : Steps code start (d.behind σ s.output)
  linked : Linked d.scopes s.scopes σ

/-- The machine has gone on from the end of a draft to that of another, sparing what it must,
    and has the value of the evaluator in a variable. -/
def Gives (code : List Instr) (start : Machine.State) (d d' : Draft) (x : Var)
    (overwritten : Bool) (σ : Store) (v : Value) (s' : Eval.State) : Prop :=
  ∃ σ', Mirror code start d' s' σ' ∧ σ' x = some v ∧ Spares d overwritten σ σ'

/-- The machine is stuck at a call, for the reason and at the place that the evaluator gives. -/
def Fails (code : List Instr) (start : Machine.State) (e : RuntimeError) (s' : Eval.State) :
    Prop :=
  ∃ cause loc callee xs y t, e = .fault cause loc ∧ Steps code start t ∧
    Stuck code (.fault cause) ⟨.call callee xs y, loc⟩ t ∧ t.output = s'.output

section

variable {code : List Instr} {start : Machine.State} {d d₁ d' : Draft} {x : Var} {a b : Bool}
  {σ σ₁ : Store} {v : Value} {s : Eval.State}

/-- What is given behind a first part is given behind the whole. -/
theorem Gives.after (h : Gives code start d₁ d' x b σ₁ v s) (hspares : Spares d a σ σ₁)
    (hext : d.Extends d₁) : Gives code start d d' x (a || b) σ v s := by
  obtain ⟨σ', hm, hv, hspares'⟩ := h
  exact ⟨σ', hm, hv, hspares.trans hspares' hext⟩

theorem Gives.mono (h : Gives code start d d' x a σ v s) (hab : a = true → b = true) :
    Gives code start d d' x b σ v s := by
  obtain ⟨σ', hm, hv, hspares⟩ := h
  exact ⟨σ', hm, hv, hspares.mono hab⟩

end

/-! ## One instruction on both sides -/

namespace Mirror

variable {code : List Instr} {start : Machine.State} {d d₀ t : Draft} {s : Eval.State}
  {σ σ₀ : Store} {loc loc' : Location} {x y : Var} {v : Value} {l l' l'' : Label}
  {overwritten holds : Bool}

/-- The machine may be elsewhere as long as the same names are in scope there. -/
theorem goto (hm : Mirror code start d s σ) (hsteps : Steps code start (t.behind σ s.output))
    (hscopes : t.scopes = d.scopes) : Mirror code start t s σ where
  steps := hsteps
  linked := by
    rw [hscopes]
    exact hm.linked

theorem label (hm : Mirror code start d s σ) (hpart : Part code (d.emit (.label l) loc)) :
    Mirror code start (d.emit (.label l) loc) s σ :=
  hm.goto (steps_label hpart hm.steps) rfl

theorem jump (hm : Mirror code start d s σ) (hpart : Part code (d.emit (.jump l) loc))
    (htarget : Part code (t.emit (.label l) loc')) (hscopes : t.scopes = d.scopes) :
    Mirror code start (t.emit (.label l) loc') s σ :=
  hm.goto (steps_jump hpart htarget hm.steps) hscopes

theorem branch (hm : Mirror code start d s σ) (hx : σ x = some (.bool holds))
    (hpart : Part code (d.emit (.branch x l l') loc))
    (htarget : Part code (t.emit (.label l'') loc'))
    (hchosen : l'' = if holds = true then l else l') (hscopes : t.scopes = d.scopes) :
    Mirror code start (t.emit (.label l'') loc') s σ :=
  hm.goto (steps_branch hpart htarget hm.steps hx hchosen) hscopes

theorem logicBranch {op : String} (hm : Mirror code start d s σ) (hx : σ x = some (.bool holds))
    (hpart : Part code (d.emit (logicBranch op x l l') loc))
    (htarget : Part code (t.emit (.label l'') loc'))
    (hchosen : l'' = if holds = decide (op = "or") then l' else l)
    (hscopes : t.scopes = d.scopes) : Mirror code start (t.emit (.label l'') loc') s σ :=
  hm.goto (steps_logicBranch hpart htarget hm.steps hx hchosen) hscopes

/-- A name is declared on both sides. -/
theorem declare (hm : Mirror code start d s σ) (n : String) (hx : σ x = some v) :
    Mirror code start (d.declare n x) { s with scopes := s.scopes.define n v } σ where
  steps := hm.steps
  linked := hm.linked.define n hx

/-- A copy to a variable that no name is bound to. -/
theorem copy (hm : Mirror code start d s σ) (hpart : Part code (d.emit (.copy x y) loc))
    (hx : σ x = some v) (hfree : ∀ l n, d.scopes.binding l n ≠ some y) (hunit : y ≠ .unit) :
    Mirror code start (d.emit (.copy x y) loc) s (σ.set y v) where
  steps := steps_copy hpart hm.steps hx
  linked := hm.linked.set v hfree hunit

/-- An instruction whose destination was minted for it. -/
theorem gives_emitNew {action : Var → Action} {out : Output} (hm : Mirror code start d s σ)
    (h : d.Tidy) (hpart : Part code (d.emitNew action loc))
    (hstep : step code (action d.next) (d.behind σ s.output) =
      .ok (State.write { d.behind σ s.output with output := out } d.next v))
    (hspares : Spares d₀ overwritten σ₀ σ) (hext : d₀.Extends d) :
    Gives code start d₀ (d.emitNew action loc) d.next overwritten σ₀ v
      { s with output := out } := by
  have hsteps : Steps code start ((d.emitNew action loc).behind (σ.set d.next v) out) :=
    steps_write (d := d.grown) hpart hm.steps hstep
  have hlinked := hm.linked.set v h.unbound_next (next_ne_unit h)
  have hnew : ¬d₀.Known d.next := fun hknown => d.not_known_next (hext.known hknown)
  exact ⟨σ.set d.next v, ⟨hsteps, hlinked⟩, Store.set_self _ _ _, hspares.set hnew v⟩

/-- A call applies its builtin just as the evaluator does, to a value or to a fault. -/
theorem leads_call {callee : Var} {xs : List Var} {b : Builtin} {args : List Value}
    (hm : Mirror code start d s σ) (h : d.Tidy)
    (hpart : Part code (d.emitNew (.call callee xs) loc)) (hcallee : σ callee = some (.builtin b))
    (hargs : List.Forall₂ (fun x v => σ x = some v) xs args)
    (hspares : Spares d₀ overwritten σ₀ σ) (hext : d₀.Extends d) :
    Leads (Eval.apply b args loc) s
      (Gives code start d₀ (d.emitNew (.call callee xs) loc) d.next overwritten σ₀)
      (Fails code start) := by
  rw [Eval.leads_apply]
  have hstep : step code (.call callee xs d.next) (d.behind σ s.output) = _ :=
    step_call hcallee hargs
  rcases happly : b.apply args s.output with cause | ⟨v, out⟩ <;> rw [happly] at hstep
  · have hstuck : Stuck code (.fault cause) ⟨.call callee xs d.next, loc⟩ (d.behind σ s.output) :=
      ⟨hpart.instr, hstep⟩
    exact ⟨cause, loc, callee, xs, d.next, _, rfl, hm.steps, hstuck, rfl⟩
  · exact hm.gives_emitNew h hpart hstep hspares hext

/-- An operand that is settled is in a variable which the next operand spares. -/
theorem settle (hm : Mirror code start d s σ) (h : d.Tidy) (hx : σ x = some v)
    (havailable : d.Available x) (hsettle : Settles x overwritten loc d y t)
    (hpart : Part code t) :
    ∃ σ', Mirror code start t s σ' ∧ Spares d false σ σ' ∧
      ∀ σ'', Spares t overwritten σ' σ'' → σ'' y = some v := by
  cases hsettle with
  | keep hsafe =>
    refine ⟨σ, hm, .refl _ _ _, fun σ'' hspares => ?_⟩
    have hdeclared : overwritten = true → x ∉ d.declared := fun ho hmem => hsafe ⟨hmem, ho⟩
    rw [hspares x (h.known_of_available havailable) hdeclared, hx]
  | copy =>
    obtain ⟨σ', hm', hy, hspares'⟩ :=
      hm.gives_emitNew h hpart (step_copy hx) (.refl d false σ) (.refl d)
    refine ⟨σ', hm', hspares', fun σ'' hspares => ?_⟩
    -- the copy was not known before, so no name is declared to live there
    have hdeclared : d.next ∉ d.declared := fun hmem =>
      d.not_known_next (h.declared _ hmem).1
    rw [hspares d.next (known_next_grown d) (fun _ => hdeclared), hy]

end Mirror

/-! ## Expressions -/

section

variable {code : List Instr} {start : Machine.State} {limited : Bool}

/-- An operator that both sides find bound to one builtin, whenever they look it up. -/
theorem leads_operation {Γ : Scopes Ty} {left right : Expr} {leftTy rightTy : Ty} {op : String}
    {loc : Location} {d d₁ d₂ d₃ : Draft} {callee y y' z : Var} {b : Builtin} {s : Eval.State}
    {σ : Store}
    (hbuiltin : ∀ s' : Eval.State, s'.Sound Γ limited →
      s'.scopes.lookup op = some (.builtin b))
    (hleft : HasType Γ left leftTy) (hright : HasType Γ right rightTy)
    (hcallee : d.scopes.lookup op = some callee) (hlowers₁ : Lowers left d y d₁)
    (hsettle : Settles y (assigns right) left.location d₁ y' d₂) (hlowers₂ : Lowers right d₂ z d₃)
    (hpart : Part code (d₃.emitNew (.call callee [y', z]) loc)) (h : Ready Γ d)
    (hs : s.Sound Γ limited)
    (ihLeft : Part code d₁ → Leads (Eval.eval left) s
      (Gives code start d d₁ y (assigns left) σ) (Fails code start))
    (ihRight : ∀ s₁ σ₁, Part code d₃ → Ready Γ d₂ → s₁.Sound Γ limited →
      Mirror code start d₂ s₁ σ₁ → Leads (Eval.eval right) s₁
        (Gives code start d₂ d₃ z (assigns right) σ₁) (Fails code start)) :
    Leads (do
        let b ← Eval.operator op loc
        let v ← Eval.eval left
        let w ← Eval.eval right
        Eval.apply b [v, w] loc) s
      (Gives code start d (d₃.emitNew (.call callee [y', z]) loc) d₃.next
        (assigns left || assigns right) σ) (Fails code start) := by
  obtain ⟨h₁, hext₁, hscopes₁, hy⟩ := h.lowers hleft hlowers₁
  obtain ⟨h₂, hext₂, hscopes₂, hy'⟩ := h₁.settles hsettle hy
  obtain ⟨h₃, hext₃, hscopes₃, -⟩ := h₂.lowers hright hlowers₂
  have hpart₃ := hpart.of_emitNew
  have hpart₂ := hpart₃.earlier hext₃
  rw [leads_bind, Eval.leads_operator (hbuiltin s hs)]
  have hfirst := (ihLeft (hpart₂.earlier hext₂)).also (Eval.leads_of_hasType hleft hs)
  refine hfirst.bind ?_
  intro v s₁ ⟨⟨σ₁, hm₁, hv, hspares₁⟩, _, hs₁⟩
  obtain ⟨σ₂, hm₂, hspares₂, hkept⟩ := hm₁.settle h₁.tidy hv hy hsettle hpart₂
  have hsecond := (ihRight s₁ σ₂ hpart₃ h₂ hs₁ hm₂).also (Eval.leads_of_hasType hright hs₁)
  refine hsecond.bind ?_
  intro w s₂ ⟨⟨σ₃, hm₃, hw, hspares₃⟩, _, hs₂⟩
  -- the machine looks the operator up only now
  have hoperator : σ₃ callee = some (.builtin b) := by
    refine hm₃.linked.lookup ?_ (hbuiltin s₂ hs₂)
    rw [hscopes₃, hscopes₂, hscopes₁, hcallee]
  have hspares : Spares d (assigns left || assigns right) σ σ₃ := by
    have hboth := (hspares₁.trans hspares₂ hext₁).trans hspares₃ (hext₁.trans hext₂)
    rwa [Bool.or_false] at hboth
  exact hm₃.leads_call h₃.tidy hpart hoperator (.cons (hkept σ₃ hspares₃) (.cons hw .nil)) hspares
    ((hext₁.trans hext₂).trans hext₃)

/-- An operation assigns when one of its operands does. -/
theorem assigns_binary {loc : Location} {op : String} {left right : Expr}
    (h : (assigns left || assigns right) = true) : assigns (.binary loc op left right) = true := by
  rw [assigns, Bool.or_assoc, h, Bool.or_true]

/-- A conditional assigns when its condition or the branch that is taken does. -/
theorem assigns_ifElse {loc : Location} {condition thenBranch elseBranch : Expr}
    (h : (assigns condition || assigns elseBranch) = true) :
    assigns (.ifElse loc condition thenBranch elseBranch) = true := by
  rw [assigns, Bool.or_right_comm, h, Bool.true_or]

/-- A condition that both sides find true or false, and then go on the same way. -/
theorem leads_condition {Γ : Scopes Ty} {condition : Expr} {thenAct elseAct : Eval.Run Value}
    {good : Value → Eval.State → Prop} {loc loc' : Location} {d d₁ t t' : Draft} {x : Var} {k : Nat}
    {l l' : Label} {s : Eval.State} {σ : Store}
    (hcondition : HasType Γ condition .bool) (hs : s.Sound Γ limited)
    (ih : Leads (Eval.eval condition) s (Gives code start d d₁ x (assigns condition) σ)
      (Fails code start))
    (hbranch : Part code ((d₁.withLabels k).emit (.branch x l l') loc))
    (hthen : Part code (t.emit (.label l) loc)) (hscopes : t.scopes = d₁.scopes)
    (helse : Part code (t'.emit (.label l') loc)) (hscopes' : t'.scopes = d₁.scopes)
    (hthenAct : ∀ s₁ σ₁, s₁.Sound Γ limited → Mirror code start (t.emit (.label l) loc) s₁ σ₁ →
      Spares d (assigns condition) σ σ₁ → Leads thenAct s₁ good (Fails code start))
    (helseAct : ∀ s₁ σ₁, s₁.Sound Γ limited → Mirror code start (t'.emit (.label l') loc) s₁ σ₁ →
      Spares d (assigns condition) σ σ₁ → Leads elseAct s₁ good (Fails code start)) :
    Leads (do
        let v ← Eval.eval condition
        let holds ← Eval.asBool v loc'
        if holds then thenAct else elseAct) s good (Fails code start) := by
  refine (ih.also (Eval.leads_of_hasType hcondition hs)).bind ?_
  intro v s₁ ⟨⟨σ₁, hm₁, hv, hspares₁⟩, htyped, hs₁⟩
  obtain ⟨holds, rfl⟩ := htyped.bool_inv
  -- taking labels moves neither the machine nor the evaluator
  have hm₂ : Mirror code start (d₁.withLabels k) s₁ σ₁ := hm₁.goto hm₁.steps rfl
  rw [leads_bind, Eval.leads_asBool]
  split
  · rename_i hholds
    have hm₃ := hm₂.branch hv hbranch hthen (by rw [if_pos hholds]) hscopes
    exact hthenAct s₁ σ₁ hs₁ hm₃ hspares₁
  · rename_i hholds
    have hm₃ := hm₂.branch hv hbranch helse (by rw [if_neg hholds]) hscopes'
    exact helseAct s₁ σ₁ hs₁ hm₃ hspares₁

mutual

/-- Executing the code of an expression gives its value, or fails as its evaluation does. -/
theorem leads_of_lowers {Γ : Scopes Ty} {e : Expr} {ty : Ty} {d d' : Draft} {x : Var}
    {s : Eval.State} {σ : Store} :
    HasType Γ e ty → Lowers e d x d' → Part code d' → Ready Γ d → s.Sound Γ limited →
      Mirror code start d s σ →
      Leads (Eval.eval e) s (Gives code start d d' x (assigns e) σ) (Fails code start)
  | .int, .int, hpart, h, _, hm => by
    rw [Eval.eval, leads_pure]
    exact hm.gives_emitNew h.tidy hpart rfl (.refl _ _ _) (.refl _)
  | .bool, .bool, hpart, h, _, hm => by
    rw [Eval.eval, leads_pure]
    exact hm.gives_emitNew h.tidy hpart rfl (.refl _ _ _) (.refl _)
  | .unit, .unit, _, _, _, hm => by
    rw [Eval.eval, leads_pure]
    exact ⟨σ, hm, hm.linked.unit, .refl _ _ _⟩
  | .name hname hbound, .name hvar, _, _, hs, hm => by
    obtain ⟨v, hlookup, -⟩ := hs.agree.lookup hname hbound
    rw [Eval.eval, Eval.leads_lookup hlookup]
    exact ⟨σ, hm, hm.linked.lookup hvar hlookup, .refl _ _ _⟩
  | .unary hbound hoperand, .unary hcallee hlowers, hpart, h, hs, hm => by
    obtain ⟨b, hlookup, -⟩ := hs.agree.operator hbound
    obtain ⟨h₁, hext, hscopes, -⟩ := h.lowers hoperand hlowers
    rw [Eval.eval, leads_bind, Eval.leads_operator hlookup]
    have hfirst := (leads_of_lowers hoperand hlowers hpart.of_emitNew h hs hm).also
      (Eval.leads_of_hasType hoperand hs)
    refine hfirst.bind ?_
    intro v s₁ ⟨⟨σ₁, hm₁, hv, hspares⟩, _, hs₁⟩
    -- the machine looks the operator up only now
    have hoperator := hm₁.linked.lookup (by rw [hscopes, hcallee])
      ((hs.agree.operator_eq hs₁.agree hbound).trans hlookup)
    exact hm₁.leads_call h₁.tidy hpart hoperator (.cons hv .nil) hspares hext
  | .assign hname hbound hright, hlowers, hpart, h, hs, hm => by
    obtain ⟨y, d₁, hcell, hlowers₁, rfl⟩ := hlowers.assign_inv
    obtain ⟨h₁, hext, hscopes, -⟩ := h.lowers hright hlowers₁
    rw [Eval.eval_assign]
    have hfirst := (leads_of_lowers hright hlowers₁ hpart.of_emit h hs hm).also
      (Eval.leads_of_hasType hright hs)
    refine hfirst.bind ?_
    intro v s₁ ⟨⟨σ₁, hm₁, hv, hspares⟩, _, hs₁⟩
    obtain ⟨old, hold, -⟩ := hs₁.agree.lookup hname hbound
    have hcontains := Scopes.contains_of_lookup hold
    rw [leads_bind, Eval.leads_assign hcontains, leads_pure]
    -- clean code assigns only to variables of declared names
    have hfree : x.name ∉ d₁.reserved := (clean_emit_copy.1 hpart.clean).2
    have hunit : x ≠ .unit := fun heq => hfree (heq ▸ h₁.tidy.unit)
    obtain ⟨l, -, hbinding⟩ := Scopes.lookup_eq_some_iff.1 hcell
    have hdeclared : x ∈ d.declared :=
      (h.tidy.owned l _ x hbinding).resolve_left fun hr => hfree (hext.reserved ▸ hr)
    have hlinked := hm₁.linked.assign hcontains (by rw [hscopes, hcell]) v
      (fun l m l' m' => h₁.tidy.distinct l m l' m' x) hunit
    refine ⟨σ₁.set x v, ⟨steps_copy hpart hm₁.steps hv, hlinked⟩, Store.set_self _ _ _, ?_⟩
    intro z hz hspared
    have hz' := hspared rfl
    have hne : z ≠ x := fun heq => hz' (heq ▸ hdeclared)
    rw [Store.set_of_ne _ _ _ hne, hspares z hz fun _ => hz']
  | .logic hop hleft hright, hlowers, hpart, h, hs, hm => by
    obtain ⟨d₁, d₂, d₃, y, z, rightLabel, skipLabel, endLabel, hlowers₁, -, -, -, hlowers₂, rfl,
      rfl, rfl⟩ := hlowers.logic_inv hop
    obtain ⟨h₁, hext₁, hscopes₁, hy⟩ := h.lowers hleft hlowers₁
    obtain ⟨h₂, hext₂, hscopes₂, hz⟩ := (h₁.logic hy _ _ _ _).lowers hright hlowers₂
    -- the code from its end to its beginning
    have hpartResult := hpart.of_emit
    have hpartLoad := hpartResult.of_emit
    have hpartSkip := hpartLoad.of_emitNew
    have hpartJump := hpartSkip.of_emit
    have hpartCopy := hpartJump.of_emit
    have hpart₂ := hpartCopy.of_emit
    have hpartRight := hpart₂.earlier hext₂
    have hpartBranch := hpartRight.of_emit.earlier (extends_grown _)
    have hpart₁ := hpartBranch.of_emit.earlier (extends_withLabels _ _)
    -- the result is a variable of its own
    have hnew : ¬d.Known d₁.next := fun hknown => d₁.not_known_next (hext₁.known hknown)
    have hfree : ∀ l n, d₂.scopes.binding l n ≠ some d₁.next := by
      rw [hscopes₂]
      exact h₁.tidy.unbound_next
    have hunit := next_ne_unit h₁.tidy
    rw [Eval.eval_logic hop]
    have hfirst := (leads_of_lowers hleft hlowers₁ hpart₁ h hs hm).also
      (Eval.leads_of_hasType hleft hs)
    refine hfirst.bind ?_
    intro v s₁ ⟨⟨σ₁, hm₁, hv, hspares₁⟩, htyped, hs₁⟩
    obtain ⟨decided, rfl⟩ := htyped.bool_inv
    have hmBranch : Mirror code start (d₁.withLabels 3) s₁ σ₁ := hm₁.goto hm₁.steps rfl
    rw [leads_bind, Eval.leads_asBool]
    split
    · rename_i hdecided
      -- the right side is not looked at, and the answer is what the left one has decided
      have hmSkip := hmBranch.logicBranch hv hpartBranch hpartSkip (by rw [if_pos hdecided])
        hscopes₂
      have hknown : d₂.Known d₁.next :=
        hext₂.known ((extends_emit _ _ _).known (known_next_grown _))
      have hext := (hext₁.trans (extends_logic _ _ _ _)).trans hext₂
      obtain ⟨σ₂, hmLoad, hload, hspares₂⟩ := hmSkip.gives_emitNew
        (((h₂.tidy.emit_copy hz hknown).emit_jump _).emit_label _) hpartLoad rfl hspares₁
        (hext.trans ((extends_emit _ _ _).trans (extends_jumped _ _ _ _)))
      have hmEnd := (hmLoad.copy hpartResult hload hfree hunit).label hpart
      rw [leads_pure, hdecided]
      refine ⟨_, hmEnd, Store.set_self _ _ _, (hspares₂.set hnew _).mono fun ha => ?_⟩
      exact assigns_binary (by rw [ha, Bool.true_or])
    · rename_i hopen
      -- the answer is that of the right side
      have hmRight := hmBranch.logicBranch hv hpartBranch hpartRight (by rw [if_neg hopen]) rfl
      have hsecond := (leads_of_lowers hright hlowers₂ hpart₂ (h₁.logic hy _ _ _ _) hs₁
        hmRight).also (Eval.leads_of_hasType hright hs₁)
      refine hsecond.bind ?_
      intro w s₂ ⟨⟨σ₂, hm₂, hw, hspares₂⟩, htyped₂, hs₂⟩
      obtain ⟨answer, rfl⟩ := htyped₂.bool_inv
      rw [leads_bind, Eval.leads_asBool, leads_pure]
      have hmEnd := (hm₂.copy hpartCopy hw hfree hunit).jump hpartJump hpart rfl
      have hspares := (hspares₁.trans hspares₂ (hext₁.trans (extends_logic _ _ _ _))).set hnew
        (.bool answer)
      exact ⟨_, hmEnd, Store.set_self _ _ _, hspares.mono assigns_binary⟩
  | .compare hop hleft hright, hlowers, hpart, h, hs, hm => by
    have hassign := ne_assign_of_compare hop
    have hlogic := not_logic_of_compare hop
    obtain ⟨d₁, d₂, d₃, callee, y, y', z, hcallee, hlowers₁, hsettle, hlowers₂, rfl, rfl⟩ :=
      hlowers.operation_inv hassign hlogic
    obtain ⟨b, hlookup, -⟩ := hs.agree.comparison hop
    have hname : ¬SourceName _ := not_sourceName_of_compare hop
    rw [Eval.eval_operation hassign hlogic]
    refine (leads_operation (fun s' hs' => (hs.agree.lookup_eq hs'.agree hname).trans hlookup)
      hleft hright hcallee hlowers₁ hsettle hlowers₂ hpart h hs
      (fun hpart₁ => leads_of_lowers hleft hlowers₁ hpart₁ h hs hm)
      fun s₁ σ₁ hpart₃ h₂ hs₁ hm₂ => leads_of_lowers hright hlowers₂ hpart₃ h₂ hs₁ hm₂).mono
        (fun _ _ hgives => hgives.mono assigns_binary) fun _ _ hfails => hfails
  | .binary hassign hlogic hbound hleft hright, hlowers, hpart, h, hs, hm => by
    obtain ⟨d₁, d₂, d₃, callee, y, y', z, hcallee, hlowers₁, hsettle, hlowers₂, rfl, rfl⟩ :=
      hlowers.operation_inv hassign hlogic
    obtain ⟨b, hlookup, -⟩ := hs.agree.operator hbound
    rw [Eval.eval_operation hassign hlogic]
    refine (leads_operation (fun s' hs' => (hs.agree.operator_eq hs'.agree hbound).trans hlookup)
      hleft hright hcallee hlowers₁ hsettle hlowers₂ hpart h hs
      (fun hpart₁ => leads_of_lowers hleft hlowers₁ hpart₁ h hs hm)
      fun s₁ σ₁ hpart₃ h₂ hs₁ hm₂ => leads_of_lowers hright hlowers₂ hpart₃ h₂ hs₁ hm₂).mono
        (fun _ _ hgives => hgives.mono assigns_binary) fun _ _ hfails => hfails
  | .ifThen hcondition hthen, .ifThen hlowers₁ _ _ hlowers₂, hpart, h, hs, hm => by
    obtain ⟨h₁, hext₁, hscopes₁, hx⟩ := h.lowers hcondition hlowers₁
    obtain ⟨-, hext₂, hscopes₂, -⟩ := (h₁.branched hx _ _ _ _).lowers hthen hlowers₂
    have hpart₂ := hpart.of_emit
    have hpartThen := hpart₂.earlier hext₂
    have hpartBranch := hpartThen.of_emit
    have hpart₁ := hpartBranch.of_emit.earlier (extends_withLabels _ _)
    rw [Eval.eval]
    refine leads_condition hcondition hs (leads_of_lowers hcondition hlowers₁ hpart₁ h hs hm)
      hpartBranch hpartThen rfl hpart hscopes₂ ?_ ?_
    · intro s₁ σ₁ hs₁ hm₁ hspares₁
      have hbranch := leads_of_lowers hthen hlowers₂ hpart₂ (h₁.branched hx _ _ _ _) hs₁ hm₁
      refine hbranch.bind ?_
      intro w s₂ hgives
      obtain ⟨σ₂, hm₂, -, hspares₂⟩ :=
        hgives.after hspares₁ (hext₁.trans (extends_branched _ _ _ _ _))
      exact ⟨σ₂, hm₂.label hpart, hm₂.linked.unit, hspares₂⟩
    · intro s₁ σ₁ _ hm₁ hspares₁
      refine ⟨σ₁, hm₁, hm₁.linked.unit, hspares₁.mono fun ha => ?_⟩
      rw [assigns, ha, Bool.true_or]
  | .ifElse hcondition hthen helse, .ifElseUnit hlowers₁ _ _ _ hlowers₂ hlowers₃, hpart, h, hs,
      hm => by
    obtain ⟨h₁, hext₁, hscopes₁, hx⟩ := h.lowers hcondition hlowers₁
    obtain ⟨h₂, hext₂, hscopes₂, -⟩ := (h₁.branched hx _ _ _ _).lowers hthen hlowers₂
    obtain ⟨-, hext₃, hscopes₃, -⟩ := (h₂.jumped _ _).lowers helse hlowers₃
    have hpart₃ := hpart.of_emit
    have hpartElse := hpart₃.earlier hext₃
    have hpartJump := hpartElse.of_emit
    have hpart₂ := hpartJump.of_emit
    have hpartThen := hpart₂.earlier hext₂
    have hpartBranch := hpartThen.of_emit
    have hpart₁ := hpartBranch.of_emit.earlier (extends_withLabels _ _)
    have hext := (hext₁.trans (extends_branched _ _ _ _ _)).trans hext₂
    -- the first branch has no value, so both have type unit
    have hunit := unit_of_lowers hthen (h₁.branched hx _ _ _ _).spans (h₁.branched hx _ _ _ _).tidy
      hlowers₂
    rw [Eval.eval]
    refine leads_condition hcondition hs (leads_of_lowers hcondition hlowers₁ hpart₁ h hs hm)
      hpartBranch hpartThen rfl hpartElse hscopes₂ ?_ ?_
    · intro s₁ σ₁ hs₁ hm₁ hspares₁
      have hbranch := leads_of_lowers hthen hlowers₂ hpart₂ (h₁.branched hx _ _ _ _) hs₁ hm₁
      refine hbranch.mono (fun v s₂ hgives => ?_) fun _ _ hfails => hfails
      obtain ⟨σ₂, hm₂, hv, hspares₂⟩ :=
        hgives.after hspares₁ (hext₁.trans (extends_branched _ _ _ _ _))
      refine ⟨σ₂, hm₂.jump hpartJump hpart hscopes₃, hv, hspares₂.mono fun ha => ?_⟩
      rw [assigns, ha, Bool.true_or]
    · intro s₁ σ₁ hs₁ hm₁ hspares₁
      have hbranch := (leads_of_lowers helse hlowers₃ hpart₃ (h₂.jumped _ _) hs₁ hm₁).also
        (Eval.leads_of_hasType helse hs₁)
      refine hbranch.mono (fun v s₂ ⟨hgives, htyped, _⟩ => ?_) fun _ _ hfails => hfails
      obtain ⟨σ₂, hm₂, -, hspares₂⟩ := hgives.after hspares₁ (hext.trans (extends_jumped _ _ _ _))
      rw [hunit] at htyped
      rw [htyped.unit_inv]
      refine ⟨σ₂, hm₂.label hpart, hm₂.linked.unit, hspares₂.mono fun ha => ?_⟩
      exact assigns_ifElse ha
  | .ifElse hcondition hthen helse, .ifElse hlowers₁ _ _ _ hlowers₂ _ hlowers₃, hpart, h, hs,
      hm => by
    obtain ⟨h₁, hext₁, hscopes₁, hx⟩ := h.lowers hcondition hlowers₁
    obtain ⟨h₂, hext₂, hscopes₂, hy⟩ := (h₁.branched hx _ _ _ _).lowers hthen hlowers₂
    obtain ⟨-, hext₃, hscopes₃, -⟩ := ((h₂.copied hy).jumped _ _).lowers helse hlowers₃
    have hpartResult := hpart.of_emit
    have hpart₃ := hpartResult.of_emit
    have hpartElse := hpart₃.earlier hext₃
    have hpartJump := hpartElse.of_emit
    have hpartCopy := hpartJump.of_emit
    have hpart₂ := hpartCopy.of_emitNew
    have hpartThen := hpart₂.earlier hext₂
    have hpartBranch := hpartThen.of_emit
    have hpart₁ := hpartBranch.of_emit.earlier (extends_withLabels _ _)
    have hext := (hext₁.trans (extends_branched _ _ _ _ _)).trans hext₂
    rw [Eval.eval]
    refine leads_condition hcondition hs (leads_of_lowers hcondition hlowers₁ hpart₁ h hs hm)
      hpartBranch hpartThen rfl hpartElse hscopes₂ ?_ ?_
    · intro s₁ σ₁ hs₁ hm₁ hspares₁
      have hbranch := leads_of_lowers hthen hlowers₂ hpart₂ (h₁.branched hx _ _ _ _) hs₁ hm₁
      refine hbranch.mono (fun v s₂ hgives => ?_) fun _ _ hfails => hfails
      obtain ⟨σ₂, hm₂, hv, hspares₂⟩ :=
        hgives.after hspares₁ (hext₁.trans (extends_branched _ _ _ _ _))
      obtain ⟨σ₃, hm₃, hv', hspares₃⟩ :=
        hm₂.gives_emitNew h₂.tidy hpartCopy (step_copy hv) hspares₂ hext
      refine ⟨σ₃, hm₃.jump hpartJump hpart hscopes₃, hv', hspares₃.mono fun ha => ?_⟩
      rw [assigns, ha, Bool.true_or]
    · intro s₁ σ₁ hs₁ hm₁ hspares₁
      have hbranch := leads_of_lowers helse hlowers₃ hpart₃ ((h₂.copied hy).jumped _ _) hs₁ hm₁
      refine hbranch.mono (fun v s₂ hgives => ?_) fun _ _ hfails => hfails
      obtain ⟨σ₂, hm₂, hv, hspares₂⟩ := hgives.after hspares₁
        ((hext.trans (extends_emitNew _ _ _)).trans (extends_jumped _ _ _ _))
      -- the result was minted in front of this branch, and no name was bound to it
      have hfree : ∀ l n, _ ≠ some _ := fun l n hbound =>
        h₂.tidy.unbound_next l n (hscopes₃ ▸ hbound)
      have hnew : ¬d.Known _ := fun hknown => not_known_next _ (hext.known hknown)
      have hmEnd := (hm₂.copy hpartResult hv hfree (next_ne_unit h₂.tidy)).label hpart
      refine ⟨_, hmEnd, Store.set_self _ _ _, (hspares₂.set hnew _).mono fun ha => ?_⟩
      exact assigns_ifElse ha
  | .call hfunction harguments, .call hlowers₁ hsettle hlowers₂, hpart, h, hs, hm => by
    obtain ⟨h₁, hext₁, hscopes₁, hx⟩ := h.lowers hfunction hlowers₁
    obtain ⟨h₂, hext₂, hscopes₂, -⟩ := h₁.settles hsettle hx
    obtain ⟨h₃, hext₃, -, -⟩ := h₂.lowersAll harguments hlowers₂
    have hpart₃ := hpart.of_emitNew
    have hpart₂ := hpart₃.earlier hext₃
    rw [Eval.eval]
    have hfirst := (leads_of_lowers hfunction hlowers₁ (hpart₂.earlier hext₂) h hs hm).also
      (Eval.leads_of_hasType hfunction hs)
    refine hfirst.bind ?_
    intro f s₁ ⟨⟨σ₁, hm₁, hf, hspares₁⟩, htyped, hs₁⟩
    obtain ⟨b, rfl, -, -⟩ := htyped.func_inv
    obtain ⟨σ₂, hm₂, hspares₂, hkept⟩ := hm₁.settle h₁.tidy hf hx hsettle hpart₂
    rw [leads_bind, Eval.leads_asBuiltin]
    have harguments := leads_of_lowersAll harguments hlowers₂ hpart₃ h₂ hs₁ hm₂
    refine harguments.bind ?_
    intro vs s₂ ⟨σ₃, hm₃, hvs, hspares₃⟩
    have hspares := (hspares₁.trans hspares₂ hext₁).trans hspares₃ (hext₁.trans hext₂)
    rw [Bool.or_false] at hspares
    exact hm₃.leads_call h₃.tidy hpart (hkept σ₃ hspares₃) hvs hspares
      ((hext₁.trans hext₂).trans hext₃)
  | .block hbody, .block hlowers, hpart, h, hs, hm => by
    have hpush : Mirror code start d.push s.push σ := ⟨hm.steps, hm.linked.push⟩
    have hs' : s.push.Sound _ limited := ⟨hs.agree.push, hs.room⟩
    have hstatements := leads_of_lowersBody hbody hlowers hpart h.push hs' hpush hm.linked.unit
      (Nat.succ_pos _)
    rw [Eval.eval, Eval.leads_inScope]
    exact hstatements

/-- Each argument is kept until all of them are there. -/
theorem leads_of_lowersAll {Γ : Scopes Ty} {es : List Expr} {types : List Ty} {d d' : Draft}
    {xs : List Var} {s : Eval.State} {σ : Store} :
    HaveTypes Γ es types → LowersAll es d xs d' → Part code d' → Ready Γ d → s.Sound Γ limited →
      Mirror code start d s σ →
      Leads (Eval.evalArguments es) s
        (fun vs s' => ∃ σ', Mirror code start d' s' σ' ∧
          List.Forall₂ (fun x v => σ' x = some v) xs vs ∧ Spares d (assignsAny es) σ σ')
        (Fails code start)
  | .nil, .nil, _, _, _, hm => ⟨σ, hm, .nil, .refl _ _ _⟩
  | .cons hfirst hrest, .cons hlowers₁ hsettle hlowers₂, hpart, h, hs, hm => by
    obtain ⟨h₁, hext₁, -, hx⟩ := h.lowers hfirst hlowers₁
    obtain ⟨h₂, hext₂, -, -⟩ := h₁.settles hsettle hx
    obtain ⟨-, hext₃, -, -⟩ := h₂.lowersAll hrest hlowers₂
    have hpart₂ := hpart.earlier hext₃
    rw [Eval.evalArguments]
    have hvalue := (leads_of_lowers hfirst hlowers₁ (hpart₂.earlier hext₂) h hs hm).also
      (Eval.leads_of_hasType hfirst hs)
    refine hvalue.bind ?_
    intro v s₁ ⟨⟨σ₁, hm₁, hv, hspares₁⟩, _, hs₁⟩
    obtain ⟨σ₂, hm₂, hspares₂, hkept⟩ := hm₁.settle h₁.tidy hv hx hsettle hpart₂
    refine (leads_of_lowersAll hrest hlowers₂ hpart h₂ hs₁ hm₂).bind ?_
    intro vs s₂ ⟨σ₃, hm₃, hvs, hspares₃⟩
    have hspares := (hspares₁.trans hspares₂ hext₁).trans hspares₃ (hext₁.trans hext₂)
    rw [Bool.or_false] at hspares
    exact ⟨σ₃, hm₃, .cons (hkept σ₃ hspares₃) hvs, hspares⟩

/-- Behind the statements of a block its scope is left on both sides. -/
theorem leads_of_lowersBody {Γ : Scopes Ty} {es : List Expr} {last ty : Ty} {d d' : Draft}
    {y x : Var} {s : Eval.State} {σ : Store} {v : Value} :
    BodyHasType Γ last es ty → LowersBody y es d x d' → Part code d'.pop → Ready Γ d →
      s.Sound Γ limited → Mirror code start d s σ → σ y = some v → 0 < Γ.depth →
      Leads (Eval.evalStatements v es) s
        (fun w s' => Gives code start d d'.pop x (assignsAny es) σ w s'.pop) (Fails code start)
  | .nil, hlowers, _, _, hs, hm, hy, hdepth => by
    cases hlowers
    have hinner : 0 < d.scopes.depth := by
      rw [← hm.linked.depth, hs.agree.depth]
      exact hdepth
    exact ⟨σ, ⟨hm.steps, hm.linked.pop hinner⟩, hy, .refl _ _ _⟩
  | @BodyHasType.declare _ _ loc n _ _ ty' _ hname hvalue hrest, hlowers, hpart, h, hs, hm, _,
      hdepth => by
    obtain _ | ⟨hvar, hlowers₂⟩ := hlowers
    cases hvar with
    | @var _ d₁ _ _ _ z hlowers₁ =>
      obtain ⟨h₁, hext₁, -, hx⟩ := h.lowers hvalue hlowers₁
      have h₂ : Ready (Γ.define n ty') ((d₁.emitNew (.copy z) loc).declare n d₁.next) :=
        h₁.declares hx n ty'
      obtain ⟨-, hext₂, -⟩ := tidy_of_lowersBody hlowers₂ h₂.tidy available_declareNew
      have hpartCopy := (hpart.earlier (hext₂.trans (extends_pop _))).of_declare
      rw [Eval.evalStatements, Eval.eval, leads_bind]
      have hfirst := (leads_of_lowers hvalue hlowers₁ hpartCopy.of_emitNew h hs hm).also
        (Eval.leads_of_hasType hvalue hs)
      refine hfirst.bind ?_
      intro v s₁ ⟨⟨σ₁, hm₁, hv, hspares₁⟩, htyped, hs₁⟩
      rw [leads_bind, Eval.leads_define, leads_pure]
      obtain ⟨σ₂, hm₂, hcell, hspares₂⟩ :=
        hm₁.gives_emitNew h₁.tidy hpartCopy (step_copy hv) hspares₁ hext₁
      -- the value is in a variable of its own before the name is declared
      have hs₂ : Eval.State.Sound (Γ.define n ty') limited
          { s₁ with scopes := s₁.scopes.define n v } :=
        ⟨hs₁.agree.define hname htyped, hs₁.room⟩
      have hrest' := leads_of_lowersBody hrest hlowers₂ hpart h₂ hs₂ (hm₂.declare n hcell) hcell
        (by rwa [Scopes.depth_define])
      refine hrest'.mono (fun w s₃ hgives => ?_) fun _ _ hfails => hfails
      exact hgives.after hspares₂ (hext₁.trans (extends_declareNew _ _ _ _))
  | .run hfirst hrest, hlowers, hpart, h, hs, hm, _, hdepth => by
    obtain _ | ⟨hlowers₁, hlowers₂⟩ := hlowers
    obtain ⟨h₁, hext₁, -, hx⟩ := h.lowers hfirst hlowers₁
    obtain ⟨-, hext₂, -⟩ := tidy_of_lowersBody hlowers₂ h₁.tidy hx
    have hpart₁ := hpart.earlier (hext₂.trans (extends_pop _))
    rw [Eval.evalStatements]
    have hvalue := (leads_of_lowers hfirst hlowers₁ hpart₁ h hs hm).also
      (Eval.leads_of_hasType hfirst hs)
    refine hvalue.bind ?_
    intro v s₁ ⟨⟨σ₁, hm₁, hv, hspares₁⟩, _, hs₁⟩
    have hrest' := leads_of_lowersBody hrest hlowers₂ hpart h₁ hs₁ hm₁ hv hdepth
    exact hrest'.mono (fun w s₂ hgives => hgives.after hspares₁ hext₁) fun _ _ hfails => hfails

end

end

end ExprLang
