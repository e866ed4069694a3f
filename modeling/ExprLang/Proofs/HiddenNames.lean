/-
  HIDDEN NAMES: what a program does not use cannot matter to it.

  Two runs of a pass over one tree start in chains of scopes that agree on every name but some
  `hidden` ones.  As long as the tree has no free use of a hidden name the runs go the same way:
  they end with the same result or the same error, in chains that agree as before.

  Inside the tree the chains grow the same scopes, and there a hidden name may well be declared.
  `SameInside` keeps these scopes equal and remembers what has been declared in each of them, so
  that a use which is not free finds its binding before it gets to where the chains differ.
-/
import ExprLang.Proofs.EvalSteps
import ExprLang.Proofs.FreeUses
import ExprLang.Proofs.RelabeledPasses

namespace ExprLang

/-! ## Two runs of one computation -/

section Alike

variable {ε σ α β : Type} {before mid after failed : σ → σ → Prop}

/-- Started in states that are related by `before`, a computation has the same result and ends in
    states that are related by `after`, or it has the same error and they are related by
    `failed`. -/
def Alike (before after failed : σ → σ → Prop) (act : EStateM ε σ α) : Prop :=
  ∀ s t, before s t →
    match act s, act t with
    | .ok a s', .ok b t' => a = b ∧ after s' t'
    | .error e s', .error e' t' => e = e' ∧ failed s' t'
    | _, _ => False

/-- A computation that changes nothing keeps the states related. -/
theorem alike_pure {a : α} (h : ∀ s t, before s t → after s t) :
    Alike before after failed (pure a : EStateM ε σ α) := fun s t hst => ⟨rfl, h s t hst⟩

/-- It may also fail in both. -/
theorem alike_throw {e : ε} (h : ∀ s t, before s t → failed s t) :
    Alike before after failed (throw e : EStateM ε σ α) := fun s t hst => ⟨rfl, h s t hst⟩

/-- The second part starts in states that the first one has related. -/
theorem Alike.bind {act : EStateM ε σ β} {k : β → EStateM ε σ α}
    (h : Alike before mid failed act) (hk : ∀ b, Alike mid after failed (k b)) :
    Alike before after failed (act >>= k) := by
  intro s t hst
  have hact := h s t hst
  show match EStateM.bind act k s, EStateM.bind act k t with
    | .ok a s', .ok b t' => a = b ∧ after s' t'
    | .error e s', .error e' t' => e = e' ∧ failed s' t'
    | _, _ => False
  unfold EStateM.bind
  rcases hs : act s with ⟨a, s'⟩ | ⟨e, s'⟩ <;> rcases ht : act t with ⟨b, t'⟩ | ⟨e', t'⟩ <;>
    rw [hs, ht] at hact
  · obtain ⟨rfl, hmid⟩ := hact
    exact hk a s' t' hmid
  · exact hact.elim
  · exact hact.elim
  · exact hact

/-- A test that does not look at the states chooses the same part in both runs. -/
theorem Alike.ite {c : Prop} [Decidable c] {act act' : EStateM ε σ α}
    (h : Alike before after failed act) (h' : Alike before after failed act') :
    Alike before after failed (if c then act else act') := by
  split
  · exact h
  · exact h'

/-- Entering and leaving a scope lead from one relation to the next. -/
theorem Alike.within {inside around : σ → σ → Prop} {act : EStateM ε σ α} {enter leave : σ → σ}
    (h : Alike inside around failed act)
    (henter : ∀ s t, before s t → inside (enter s) (enter t))
    (hleave : ∀ s t, around s t → after (leave s) (leave t))
    (hfailed : ∀ s t, failed s t → failed (leave s) (leave t)) :
    Alike before after failed (within enter leave act) := by
  intro s t hst
  have hact := h _ _ (henter s t hst)
  unfold ExprLang.within
  rcases hs : act (enter s) with ⟨a, s'⟩ | ⟨e, s'⟩ <;>
    rcases ht : act (enter t) with ⟨b, t'⟩ | ⟨e', t'⟩ <;> rw [hs, ht] at hact
  · exact ⟨hact.1, hleave s' t' hact.2⟩
  · exact hact.elim
  · exact hact.elim
  · exact ⟨hact.1, hfailed s' t' hact.2⟩

end Alike

/-! ## Chains that agree but for hidden names -/

namespace Scopes

variable {α : Type} {hidden : String → Prop} {declared : List String}
variable {inner : List (List String)} {s t : Scopes α} {n : String}

/-- The same scopes inside chains that agree on all names but the hidden ones.  Listed are names
    that each of the inner scopes binds, innermost scope first. -/
inductive SameInside (hidden : String → Prop) : List (List String) → Scopes α → Scopes α → Prop
  | around {s t : Scopes α} (h : ∀ n, ¬hidden n → t.lookup n = s.lookup n) :
      SameInside hidden [] s t
  | scope {declared : List String} {inner : List (List String)} {frame : Frame α}
      {s t : Scopes α} (hdeclared : ∀ n ∈ declared, (frame.get? n).isSome = true)
      (h : SameInside hidden inner s t) :
      SameInside hidden (declared :: inner) (.child frame s) (.child frame t)

/-- The innermost scope binds one name more. -/
def declare (n : String) : List (List String) → List (List String)
  | [] => []
  | declared :: inner => (n :: declared) :: inner

/-- A name on which such chains agree. -/
def Open (hidden : String → Prop) (inner : List (List String)) (n : String) : Prop :=
  n ∈ inner.flatten ∨ ¬hidden n

/-- A name is declared inside, or its use is a free one, and free uses are not hidden. -/
theorem Open.of_outside (use : Use)
    (h : ∀ u ∈ use.outside inner.flatten, ¬hidden u.name) : Open hidden inner use.name := by
  unfold Use.outside at h
  split at h
  · rename_i hdeclared
    exact .inl hdeclared
  · exact .inr (h use (List.mem_singleton_self use))

/-- What a frame does not bind is declared further out, or not at all. -/
theorem Open.outer (h : Open hidden (declared :: inner) n) (hn : n ∉ declared) :
    Open hidden inner n := by
  rcases h with hmem | hopen
  · rw [List.flatten_cons, List.mem_append] at hmem
    exact .inl (hmem.resolve_left hn)
  · exact .inr hopen

namespace SameInside

/-- A name that is declared further in, or that is not hidden, is bound alike. -/
theorem lookup (h : SameInside hidden inner s t) (hn : Open hidden inner n) :
    t.lookup n = s.lookup n := by
  induction h with
  | around h => exact h n (hn.resolve_left (by simp))
  | @scope _ _ frame _ _ hdeclared _ ih =>
    simp only [Scopes.lookup]
    rcases hbound : frame.get? n with _ | a
    · refine ih (hn.outer fun hmem => ?_)
      have hsome := hdeclared n hmem
      rw [hbound] at hsome
      contradiction
    · rfl

/-- Changing such a binding changes both chains alike. -/
theorem modify (h : SameInside hidden inner s t) (hn : Open hidden inner n) (f : α → α) :
    SameInside hidden inner (s.modify n f) (t.modify n f) := by
  induction h with
  | around h =>
    refine .around fun m hm => ?_
    rw [lookup_modify, lookup_modify, h m hm]
  | @scope _ _ frame _ _ hdeclared h ih =>
    simp only [Scopes.modify]
    rcases hbound : frame.get? n with _ | a
    · refine .scope hdeclared (ih (hn.outer fun hmem => ?_))
      have hsome := hdeclared n hmem
      rw [hbound] at hsome
      contradiction
    · refine .scope (fun m hm => ?_) h
      rw [Frame.get?_put]
      split
      · rfl
      · exact hdeclared m hm

/-- A new scope is equal on both sides. -/
theorem push (h : SameInside hidden inner s t) : SameInside hidden ([] :: inner) s.push t.push :=
  .scope (by simp) h

/-- Leaving a scope forgets what was declared in it. -/
theorem pop (h : SameInside hidden (declared :: inner) s t) :
    SameInside hidden inner s.pop t.pop := by
  cases h with
  | scope _ h => exact h

/-- A declaration makes its name open from here on. -/
theorem define (h : SameInside hidden inner s t) (n : String) (a : α) :
    SameInside hidden (declare n inner) (s.define n a) (t.define n a) := by
  cases h with
  | around h =>
    refine .around fun m hm => ?_
    rw [lookup_define, lookup_define, h m hm]
  | scope hdeclared h =>
    refine .scope (fun m hm => ?_) h
    rw [Frame.get?_put]
    split
    · rfl
    · rename_i hne
      exact hdeclared m ((List.mem_cons.1 hm).resolve_left (Ne.symm hne))

end SameInside

/-- What two chains have in common behind a tree: a declaration binds its name in both. -/
def SameBehind (hidden : String → Prop) (inner : List (List String)) :
    Expr → Scopes α → Scopes α → Prop
  | .var _ n _ => SameInside hidden (declare n inner)
  | _ => SameInside hidden inner

/-- What two chains have in common once the innermost scope is closed. -/
def SameAfter (hidden : String → Prop) (inner : List (List String)) (s t : Scopes α) : Prop :=
  SameInside hidden inner s.pop t.pop

end Scopes

open Scopes (SameInside SameBehind SameAfter Open)

variable {names hidden : String → Prop} {inner : List (List String)} {declared : List String}

/-! ## Passes that hidden names do not matter to -/

section Keeps

variable {ε σ α β γ : Type} {scopes : σ → Scopes γ} {beside : σ → σ → Prop}
variable {change : Scopes γ → Scopes γ → Prop}

/-- Two states whose scopes are related, and whatever there is beside the scopes. -/
def Joined (scopes : σ → Scopes γ) (beside : σ → σ → Prop) (related : Scopes γ → Scopes γ → Prop)
    (s t : σ) : Prop :=
  related (scopes s) (scopes t) ∧ beside s t

/-- A computation in scopes that are the same but for hidden names, which it leaves related by
    `change`. -/
abbrev Blind (scopes : σ → Scopes γ) (beside : σ → σ → Prop) (hidden : String → Prop)
    (inner : List (List String)) (change : Scopes γ → Scopes γ → Prop) (act : EStateM ε σ α) :
    Prop :=
  Alike (Joined scopes beside (SameInside hidden inner)) (Joined scopes beside change) beside act

/-- A step that does nothing sees nothing. -/
theorem blind_pure (a : α) :
    Blind scopes beside hidden inner (SameInside hidden inner) (pure a : EStateM ε σ α) :=
  alike_pure fun _ _ h => h

/-- An error that is known before does not depend on the scopes. -/
theorem blind_throw (e : ε) :
    Blind scopes beside hidden inner change (throw e : EStateM ε σ α) :=
  alike_throw fun _ _ h => h.2

/-- A value declares nothing. -/
theorem Alike.value {act : EStateM ε σ α} {e : Expr}
    (h : Blind scopes beside hidden inner (SameBehind hidden inner e) act)
    (hfits : e.Fits names .value) :
    Blind scopes beside hidden inner (SameInside hidden inner) act := by
  cases e with
  | var => simp [Expr.Fits] at hfits
  | _ => exact h

/-- A statement and those behind it, for which the statement has declared what it declares. -/
theorem Alike.statement {act : EStateM ε σ α} {k : α → EStateM ε σ β} {e : Expr}
    {rest : List Expr}
    (hfree : ∀ u ∈ Expr.freeUsesBody (declared :: inner).flatten (e :: rest), ¬hidden u.name)
    (h : (∀ u ∈ e.freeUses (declared :: inner).flatten, ¬hidden u.name) →
      Blind scopes beside hidden (declared :: inner) (SameBehind hidden (declared :: inner) e) act)
    (hk : ∀ declared' a,
      (∀ u ∈ Expr.freeUsesBody (declared' :: inner).flatten rest, ¬hidden u.name) →
      Blind scopes beside hidden (declared' :: inner) (SameAfter hidden inner) (k a)) :
    Blind scopes beside hidden (declared :: inner) (SameAfter hidden inner) (act >>= k) := by
  cases e with
  | var loc n value =>
    rw [Expr.freeUsesBody, List.forall_mem_append] at hfree
    exact (h hfree.1).bind fun a => hk (n :: declared) a hfree.2
  | _ =>
    rw [Expr.freeUsesBody, List.forall_mem_append] at hfree
    · exact (h hfree.1).bind fun a => hk declared a hfree.2
    · simp

end Keeps

/-! ## Checking -/

namespace Typing

open ExprLang.Expr

/-- Checking in scopes that are the same but for hidden names. -/
abbrev Blind (hidden : String → Prop) (inner : List (List String))
    (change : Scopes Ty → Scopes Ty → Prop) {α : Type} (act : Check α) : Prop :=
  ExprLang.Blind id (fun _ _ => True) hidden inner change act

/-- A look-up of an open name cannot tell the two runs apart. -/
theorem blind_lookup {n : String} (hn : Open hidden inner n) (loc : Location) :
    Blind hidden inner (SameInside hidden inner) (lookup n loc) := by
  intro s t hst
  have hsame : t.lookup n = s.lookup n := hst.1.lookup hn
  simp only [lookup, hsame]
  cases s.lookup n with
  | none => exact ⟨rfl, trivial⟩
  | some ty => exact ⟨rfl, hst⟩

/-- A declaration adds to the names that are declared inside. -/
theorem blind_define (n : String) (ty : Ty) :
    Blind hidden inner (SameInside hidden (Scopes.declare n inner)) (define n ty) :=
  fun _ _ hst => ⟨rfl, hst.1.define n ty, trivial⟩

/-- Comparing types does not look at names. -/
theorem blind_expect (role : Role) (expected found : Ty) (loc : Location) :
    Blind hidden inner (SameInside hidden inner) (expect role expected found loc) :=
  .ite (blind_pure ()) (blind_throw _)

/-- The type of an operator is found alike when no one has hidden it. -/
theorem blind_operatorType {op : String} (hop : Open hidden inner op) (loc : Location) :
    Blind hidden inner (SameInside hidden inner) (operatorType op loc) := by
  refine (blind_lookup hop loc).bind fun found => ?_
  cases found with
  | func params result => exact blind_pure _
  | _ => exact blind_throw _

/-- What is declared in a scope of its own is gone behind it. -/
theorem blind_inScope {α : Type} {act : Check α}
    (h : Blind hidden ([] :: inner) (SameAfter hidden inner) act) :
    Blind hidden inner (SameInside hidden inner) (inScope act) :=
  h.within (fun _ _ hst => ⟨hst.1.push, hst.2⟩) (fun _ _ hst => hst) fun _ _ hst => hst

mutual

/-- Checking a tree depends on its free names only, and on `and` and `or`. -/
theorem blind_check (hand : ¬hidden "and") (hor : ¬hidden "or") : (e : Expr) → {pos : Place} →
    e.Fits names pos → (inner : List (List String)) →
    (∀ u ∈ e.freeUses inner.flatten, ¬hidden u.name) →
    Blind hidden inner (SameBehind hidden inner e) (check e)
  | .int _ _, _, _, _, _ => blind_pure _
  | .bool _ _, _, _, _, _ => blind_pure _
  | .unit _, _, _, _, _ => blind_pure _
  | .name loc n, _, _, inner, hfree => by
    rw [freeUses] at hfree
    exact blind_lookup (Open.of_outside (.read n) hfree) loc
  | .unary loc op operand, _, h, inner, hfree => by
    rw [freeUses, List.forall_mem_append] at hfree
    rw [check]
    refine ((blind_check hand hor operand h.2 inner hfree.2).value h.2).bind fun operandType => ?_
    have hoperator := Open.of_outside (.operator _) hfree.1
    refine (blind_operatorType hoperator loc).bind fun ⟨params, result⟩ => ?_
    match params with
    | [param] => exact (blind_expect _ _ _ _).bind fun _ => blind_pure _
    | [] | _ :: _ :: _ => exact blind_throw _
  | .binary loc op left right, _, h, inner, hfree => by
    rcases h.binary_cases with ⟨rfl, nameLoc, n, rfl⟩ | ⟨hassign, -⟩
    · rw [freeUses_assign, List.forall_mem_append] at hfree
      rw [check_assign]
      refine (blind_lookup (Open.of_outside (.write n) hfree.1) nameLoc).bind fun variableType => ?_
      refine ((blind_check hand hor right h.2.2 inner hfree.2).value h.2.2).bind
        fun valueType => ?_
      exact (blind_expect _ _ _ _).bind fun _ => blind_pure _
    · -- `and` and `or` are no uses, but the checker looks them up all the same
      have hsplit : Open hidden inner op ∧ (∀ u ∈ left.freeUses inner.flatten, ¬hidden u.name) ∧
          ∀ u ∈ right.freeUses inner.flatten, ¬hidden u.name := by
        by_cases hlogic : op = "and" ∨ op = "or"
        · rw [freeUses_logic hlogic, List.forall_mem_append] at hfree
          refine ⟨.inr ?_, hfree⟩
          rcases hlogic with rfl | rfl
          · exact hand
          · exact hor
        · rw [freeUses_operation hassign hlogic, List.forall_mem_append,
            List.forall_mem_append] at hfree
          exact ⟨Open.of_outside (.operator op) hfree.1, hfree.2⟩
      obtain ⟨hop, hleft, hright⟩ := hsplit
      rw [check_operation hassign]
      refine ((blind_check hand hor left h.2.1 inner hleft).value h.2.1).bind fun leftType => ?_
      refine ((blind_check hand hor right h.2.2 inner hright).value h.2.2).bind
        fun rightType => .ite ?_ ?_
      · exact .ite (blind_pure _) (blind_throw _)
      · refine (blind_operatorType hop loc).bind fun ⟨params, result⟩ => ?_
        match params with
        | [leftParam, rightParam] =>
          exact (blind_expect _ _ _ _).bind fun _ => (blind_expect _ _ _ _).bind fun _ =>
            blind_pure _
        | [] | [_] | _ :: _ :: _ :: _ => exact blind_throw _
  | .ifThen loc condition thenBranch, _, h, inner, hfree => by
    rw [freeUses, List.forall_mem_append] at hfree
    rw [check]
    refine ((blind_check hand hor condition h.1 inner hfree.1).value h.1).bind
      fun conditionType => ?_
    refine (blind_expect _ _ _ _).bind fun _ => ?_
    refine ((blind_check hand hor thenBranch h.2 inner hfree.2).value h.2).bind fun thenType => ?_
    exact (blind_expect _ _ _ _).bind fun _ => blind_pure _
  | .ifElse loc condition thenBranch elseBranch, _, h, inner, hfree => by
    rw [freeUses, List.forall_mem_append, List.forall_mem_append] at hfree
    rw [check]
    refine ((blind_check hand hor condition h.1 inner hfree.1.1).value h.1).bind
      fun conditionType => ?_
    refine (blind_expect _ _ _ _).bind fun _ => ?_
    refine ((blind_check hand hor thenBranch h.2.1 inner hfree.1.2).value h.2.1).bind
      fun thenType => ?_
    refine ((blind_check hand hor elseBranch h.2.2 inner hfree.2).value h.2.2).bind
      fun elseType => ?_
    exact .ite (blind_pure _) (blind_throw _)
  | .call loc function arguments, _, h, inner, hfree => by
    rw [freeUses, List.forall_mem_append] at hfree
    rw [check]
    refine ((blind_check hand hor function h.2.1 inner hfree.1).value h.2.1).bind fun found => ?_
    cases found with
    | func params result =>
      refine .ite ?_ (blind_throw _)
      exact (blind_checkArguments hand hor arguments h.2.2 inner hfree.2 _ 1 params).bind
        fun _ => blind_pure _
    | _ => exact blind_throw _
  | .var loc n value, _, h, inner, hfree => by
    rw [freeUses] at hfree
    rw [check]
    refine ((blind_check hand hor value h.2.2 inner hfree).value h.2.2).bind fun ty => ?_
    exact (blind_define n ty).bind fun _ => alike_pure fun _ _ hst => hst
  | .block loc statements, _, h, inner, hfree => by
    rw [freeUses] at hfree
    rw [check]
    exact blind_inScope (blind_checkStatements hand hor statements h inner [] hfree .unit)

/-- Checking arguments. -/
theorem blind_checkArguments (hand : ¬hidden "and") (hor : ¬hidden "or") : (es : List Expr) →
    FitAll names es → (inner : List (List String)) →
    (∀ u ∈ freeUsesAll inner.flatten es, ¬hidden u.name) → (function : String) →
    (number : Nat) → (params : List Ty) →
    Blind hidden inner (SameInside hidden inner) (checkArguments function number params es)
  | [], _, _, _, function, number, params => by
    cases params <;> exact blind_pure _
  | e :: rest, _, _, _, function, number, [] => blind_pure _
  | e :: rest, h, inner, hfree, function, number, param :: params => by
    rw [freeUsesAll, List.forall_mem_append] at hfree
    rw [checkArguments]
    refine ((blind_check hand hor e h.1 inner hfree.1).value h.1).bind fun found => ?_
    refine (blind_expect _ _ _ _).bind fun _ => ?_
    exact blind_checkArguments hand hor rest h.2 inner hfree.2 function (number + 1) params

/-- Checking statements. -/
theorem blind_checkStatements (hand : ¬hidden "and") (hor : ¬hidden "or") : (es : List Expr) →
    {pos : Place} → FitBody names pos es → (inner : List (List String)) →
    (declared : List String) →
    (∀ u ∈ freeUsesBody (declared :: inner).flatten es, ¬hidden u.name) → (last : Ty) →
    Blind hidden (declared :: inner) (SameAfter hidden inner) (checkStatements last es)
  | [], _, _, _, _, _, last => alike_pure fun _ _ hst => ⟨hst.1.pop, hst.2⟩
  | e :: rest, _, h, inner, declared, hfree, last => by
    rw [checkStatements]
    refine Alike.statement hfree (blind_check hand hor e h.1 (declared :: inner)) ?_
    exact fun declared' ty hrest =>
      blind_checkStatements hand hor rest h.2 inner declared' hrest ty

end

end Typing

/-! ## Evaluating -/

/-- The same output behind some lines. -/
def Output.behind (front : List String) (out : Output) : Output :=
  { out with lines := front ++ out.lines }

/-- Lines that were printed earlier take no room from later ones. -/
@[simp] theorem Output.print?_behind (front : List String) (line : String) (out : Output) :
    (out.behind front).print? line = (out.print? line).map (Output.behind front) := by
  simp only [print?, behind]
  split <;> simp [behind]

/-- A builtin does not look at what has been printed. -/
theorem Builtin.apply_behind (b : Builtin) (args : List Value) (front : List String)
    (out : Output) :
    b.apply args (out.behind front) =
      (b.apply args out).map fun result => (result.1, result.2.behind front) := by
  simp only [apply, Output.print?_behind]
  rcases b.lineOf? args with _ | line
  · cases b.compute args <;> rfl
  · simp only
    cases out.print? line <;> rfl

namespace Eval

open ExprLang.Expr

variable {front : List String}

/-- The second state has printed some lines more, in front of those of the first one. -/
def State.Behind (front : List String) (s t : State) : Prop := t.output = s.output.behind front

/-- Evaluating in scopes that are the same but for hidden names, behind lines that have been
    printed. -/
abbrev Blind (front : List String) (hidden : String → Prop) (inner : List (List String))
    (change : Scopes Value → Scopes Value → Prop) {α : Type} (act : Run α) : Prop :=
  ExprLang.Blind State.scopes (State.Behind front) hidden inner change act

/-- The same steps for the evaluator, whose states have an output as well. -/
theorem blind_lookup {n : String} (hn : Open hidden inner n) (loc : Location) :
    Blind front hidden inner (SameInside hidden inner) (lookup n loc) := by
  intro s t hst
  simp only [lookup, hst.1.lookup hn]
  cases s.scopes.lookup n with
  | none => exact ⟨rfl, hst.2⟩
  | some v => exact ⟨rfl, hst⟩

theorem blind_define (n : String) (v : Value) :
    Blind front hidden inner (SameInside hidden (Scopes.declare n inner)) (define n v) :=
  fun _ _ hst => ⟨rfl, hst.1.define n v, hst.2⟩

/-- An assignment changes the binding of an open name in both runs. -/
theorem blind_assign {n : String} (hn : Open hidden inner n) (v : Value) (loc : Location) :
    Blind front hidden inner (SameInside hidden inner) (assign n v loc) := by
  intro s t hst
  have hsame : t.scopes.contains n = s.scopes.contains n := by
    rw [Scopes.contains, hst.1.lookup hn, Scopes.contains]
  simp only [assign, Scopes.assign?, hsame]
  cases s.scopes.contains n with
  | false => exact ⟨rfl, hst.2⟩
  | true => exact ⟨trivial, hst.1.modify hn _, hst.2⟩

theorem blind_asBuiltin (v : Value) (loc : Location) :
    Blind front hidden inner (SameInside hidden inner) (asBuiltin v loc) := by
  cases v with
  | builtin b => exact blind_pure b
  | _ => exact blind_throw _

theorem blind_asBool (v : Value) (loc : Location) :
    Blind front hidden inner (SameInside hidden inner) (asBool v loc) := by
  cases v with
  | bool b => exact blind_pure b
  | _ => exact blind_throw _

/-- An operator is the same function in both. -/
theorem blind_operator {op : String} (hop : Open hidden inner op) (loc : Location) :
    Blind front hidden inner (SameInside hidden inner) (operator op loc) :=
  (blind_lookup hop loc).bind fun v => blind_asBuiltin v loc

/-- A builtin function prints the same line behind whatever was printed before. -/
theorem blind_apply (b : Builtin) (args : List Value) (loc : Location) :
    Blind front hidden inner (SameInside hidden inner) (apply b args loc) := by
  intro s t hst
  have happly := b.apply_behind args front s.output
  rw [← hst.2] at happly
  simp only [apply, happly]
  cases b.apply args s.output with
  | error cause => exact ⟨rfl, hst.2⟩
  | ok result => exact ⟨rfl, hst.1, rfl⟩

/-- A scope of values is gone behind it as well. -/
theorem blind_inScope {α : Type} {act : Run α}
    (h : Blind front hidden ([] :: inner) (SameAfter hidden inner) act) :
    Blind front hidden inner (SameInside hidden inner) (inScope act) :=
  h.within (fun _ _ hst => ⟨hst.1.push, hst.2⟩) (fun _ _ hst => hst) fun _ _ hst => hst

mutual

/-- Evaluating a tree depends on its free names only, and not on what has been printed. -/
theorem blind_eval : (e : Expr) → {pos : Place} → e.Fits names pos →
    (inner : List (List String)) → (∀ u ∈ e.freeUses inner.flatten, ¬hidden u.name) →
    Blind front hidden inner (SameBehind hidden inner e) (eval e)
  | .int _ _, _, _, _, _ => blind_pure _
  | .bool _ _, _, _, _, _ => blind_pure _
  | .unit _, _, _, _, _ => blind_pure _
  | .name loc n, _, _, inner, hfree => by
    rw [freeUses] at hfree
    exact blind_lookup (Open.of_outside (.read n) hfree) loc
  | .unary loc op operand, _, h, inner, hfree => by
    rw [freeUses, List.forall_mem_append] at hfree
    rw [eval]
    refine (blind_operator (Open.of_outside (.operator _) hfree.1) loc).bind fun b => ?_
    refine ((blind_eval operand h.2 inner hfree.2).value h.2).bind fun v => ?_
    exact blind_apply b [v] loc
  | .binary loc op left right, _, h, inner, hfree => by
    rcases h.binary_cases with ⟨rfl, nameLoc, n, rfl⟩ | ⟨hassign, -⟩
    · rw [freeUses_assign, List.forall_mem_append] at hfree
      rw [eval_assign]
      refine ((blind_eval right h.2.2 inner hfree.2).value h.2.2).bind fun v => ?_
      exact (blind_assign (Open.of_outside (.write n) hfree.1) v nameLoc).bind fun _ => blind_pure v
    · by_cases hlogic : op = "and" ∨ op = "or"
      · rw [freeUses_logic hlogic, List.forall_mem_append] at hfree
        rw [eval_logic hlogic]
        refine ((blind_eval left h.2.1 inner hfree.1).value h.2.1).bind fun v => ?_
        refine (blind_asBool v _).bind fun decided => .ite (blind_pure _) ?_
        refine ((blind_eval right h.2.2 inner hfree.2).value h.2.2).bind fun w => ?_
        exact (blind_asBool w _).bind fun _ => blind_pure _
      · rw [freeUses_operation hassign hlogic, List.forall_mem_append,
          List.forall_mem_append] at hfree
        rw [eval_operation hassign hlogic]
        refine (blind_operator (Open.of_outside (.operator _) hfree.1) loc).bind fun b => ?_
        refine ((blind_eval left h.2.1 inner hfree.2.1).value h.2.1).bind fun v => ?_
        refine ((blind_eval right h.2.2 inner hfree.2.2).value h.2.2).bind fun w => ?_
        exact blind_apply b [v, w] loc
  | .ifThen loc condition thenBranch, _, h, inner, hfree => by
    rw [freeUses, List.forall_mem_append] at hfree
    rw [eval]
    refine ((blind_eval condition h.1 inner hfree.1).value h.1).bind fun v => ?_
    refine (blind_asBool v _).bind fun holds => .ite ?_ (blind_pure _)
    exact ((blind_eval thenBranch h.2 inner hfree.2).value h.2).bind fun _ => blind_pure _
  | .ifElse loc condition thenBranch elseBranch, _, h, inner, hfree => by
    rw [freeUses, List.forall_mem_append, List.forall_mem_append] at hfree
    rw [eval]
    refine ((blind_eval condition h.1 inner hfree.1.1).value h.1).bind fun v => ?_
    refine (blind_asBool v _).bind fun holds => .ite ?_ ?_
    · exact (blind_eval thenBranch h.2.1 inner hfree.1.2).value h.2.1
    · exact (blind_eval elseBranch h.2.2 inner hfree.2).value h.2.2
  | .call loc function arguments, _, h, inner, hfree => by
    rw [freeUses, List.forall_mem_append] at hfree
    rw [eval]
    refine ((blind_eval function h.2.1 inner hfree.1).value h.2.1).bind fun f => ?_
    refine (blind_asBuiltin f _).bind fun b => ?_
    exact (blind_evalArguments arguments h.2.2 inner hfree.2).bind fun args =>
      blind_apply b args loc
  | .var loc n value, _, h, inner, hfree => by
    rw [freeUses] at hfree
    rw [eval]
    refine ((blind_eval value h.2.2 inner hfree).value h.2.2).bind fun v => ?_
    exact (blind_define n v).bind fun _ => alike_pure fun _ _ hst => hst
  | .block loc statements, _, h, inner, hfree => by
    rw [freeUses] at hfree
    rw [eval]
    exact blind_inScope (blind_evalStatements statements h inner [] hfree .unit)

/-- Evaluating arguments. -/
theorem blind_evalArguments : (es : List Expr) → FitAll names es →
    (inner : List (List String)) → (∀ u ∈ freeUsesAll inner.flatten es, ¬hidden u.name) →
    Blind front hidden inner (SameInside hidden inner) (evalArguments es)
  | [], _, _, _ => blind_pure _
  | e :: rest, h, inner, hfree => by
    rw [freeUsesAll, List.forall_mem_append] at hfree
    rw [evalArguments]
    refine ((blind_eval e h.1 inner hfree.1).value h.1).bind fun v => ?_
    exact (blind_evalArguments rest h.2 inner hfree.2).bind fun vs => blind_pure (v :: vs)

/-- Evaluating statements. -/
theorem blind_evalStatements : (es : List Expr) → {pos : Place} → FitBody names pos es →
    (inner : List (List String)) → (declared : List String) →
    (∀ u ∈ freeUsesBody (declared :: inner).flatten es, ¬hidden u.name) → (last : Value) →
    Blind front hidden (declared :: inner) (SameAfter hidden inner) (evalStatements last es)
  | [], _, _, _, _, _, last => alike_pure fun _ _ hst => ⟨hst.1.pop, hst.2⟩
  | e :: rest, _, h, inner, declared, hfree, last => by
    rw [evalStatements]
    refine Alike.statement hfree (blind_eval e h.1 (declared :: inner)) ?_
    exact fun declared' v hrest => blind_evalStatements rest h.2 inner declared' hrest v

end

end Eval
end ExprLang
