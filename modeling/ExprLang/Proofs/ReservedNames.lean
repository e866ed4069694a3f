/-
  RESERVED NAMES: the code of a program when more names are reserved.

  Variables that are minted skip the reserved names, so with more of those other variables are
  minted.  That is all that changes.  `Exchanges` sends the variable that is minted as the k-th
  with fewer reserved names to the one that is minted as the k-th with more of them, and keeps all
  others.

  It never makes two variables one: whatever is minted with more reserved names would be minted
  with fewer as well, only earlier or later.  So lowering takes the same decisions on both sides,
  where they depend on which variable is which, and `lowers_exchanged` writes the two codes side
  by side.  Names in scope need care at the outermost level alone, where more of them are bound.
-/
import Mathlib.Data.List.Basic
import Mathlib.Order.WellFounded
import ExprLang.Proofs.DraftInvariants

namespace ExprLang

/-! ## Code with other variables -/

/-- An action on other variables. -/
def Action.rename (f : Var → Var) : Action → Action
  | .loadInt value dest => .loadInt value (f dest)
  | .loadBool value dest => .loadBool value (f dest)
  | .copy source dest => .copy (f source) (f dest)
  | .call callee arguments dest => .call (f callee) (arguments.map f) (f dest)
  | .label l => .label l
  | .jump target => .jump target
  | .branch condition thenTarget elseTarget => .branch (f condition) thenTarget elseTarget

/-- An instruction on other variables. -/
def Instr.rename (f : Var → Var) (i : Instr) : Instr := { i with action := i.action.rename f }

/-! ## The variables that are minted -/

/-- The number of the variable that is minted as the k-th. -/
def mintedNumber (reserved : List String) : Nat → Nat
  | 0 => 0
  | k + 1 => firstFree reserved (mintedNumber reserved k + 1)

/-- Numbers are handed out in order and never again. -/
theorem mintedNumber_strictMono (reserved : List String) : StrictMono (mintedNumber reserved) :=
  strictMono_nat_of_lt_succ fun k => le_firstFree reserved (mintedNumber reserved k + 1)

/-- Every free number comes to be minted. -/
theorem exists_mintedNumber {reserved : List String} {j : Nat} (hj : 0 < j)
    (hfree : (Var.numbered j).name ∉ reserved) : ∃ k, j = mintedNumber reserved (k + 1) := by
  have hbelow : ∀ k, j ≤ mintedNumber reserved k → ∃ i, j = mintedNumber reserved (i + 1) := by
    intro k
    induction k with
    | zero =>
      intro hle
      exact absurd hj (Nat.not_lt_of_le hle)
    | succ k ih =>
      intro hle
      rcases Nat.lt_or_ge (mintedNumber reserved k) j with hlt | hge
      · refine ⟨k, Nat.le_antisymm hle (Nat.le_of_not_lt fun hskipped => hfree ?_)⟩
        exact (firstFree_spec reserved (mintedNumber reserved k + 1)).2 j hlt hskipped
      · exact ih hge
  exact hbelow j ((mintedNumber_strictMono reserved).le_apply)

/-- The variable that is minted as the k-th when these names are reserved. -/
def Var.minted (reserved : List String) (k : Nat) : Var :=
  .numbered (mintedNumber (unitName :: reserved) k)

section Minted

variable {reserved reserved' : List String}

/-- So no variable is minted twice. -/
theorem Var.minted_injective {j k : Nat} (h : Var.minted reserved j = .minted reserved k) :
    j = k :=
  (mintedNumber_strictMono _).injective (Var.numbered_injective h)

/-- A number is passed over when its name is reserved. -/
theorem Var.minted_not_reserved (reserved : List String) (k : Nat) :
    (Var.minted reserved (k + 1)).name ∉ unitName :: reserved :=
  (firstFree_spec _ _).1

/-- What is minted with more reserved names is minted with fewer as well. -/
theorem exists_minted (hsub : reserved ⊆ reserved') (k : Nat) :
    ∃ j, Var.minted reserved' (k + 1) = .minted reserved (j + 1) := by
  have hpositive : 0 < mintedNumber (unitName :: reserved') (k + 1) :=
    Nat.lt_of_le_of_lt (Nat.zero_le _) (mintedNumber_strictMono _ (Nat.lt_succ_self k))
  obtain ⟨j, hj⟩ := exists_mintedNumber hpositive fun hmem =>
    Var.minted_not_reserved reserved' k (List.cons_subset_cons _ hsub hmem)
  exact ⟨j, congrArg Var.numbered hj⟩

end Minted

/-- A variable for a variable: the k-th that is minted for the k-th, and every other for itself. -/
structure Exchanges (reserved reserved' : List String) (f : Var → Var) : Prop where
  minted : ∀ k, f (.minted reserved (k + 1)) = .minted reserved' (k + 1)
  others : ∀ x, (∀ k, x ≠ .minted reserved (k + 1)) → f x = x

/-- Both lists of minted variables go on for ever, so the k-th of one can always be sent to the k-th
    of the other. -/
theorem exists_exchanges (reserved reserved' : List String) :
    ∃ f, Exchanges reserved reserved' f := by
  classical
  refine ⟨fun x => if h : ∃ k, x = .minted reserved (k + 1) then .minted reserved' (h.choose + 1)
    else x, fun k => ?_, fun x hx => ?_⟩
  · have h : ∃ j, Var.minted reserved (k + 1) = .minted reserved (j + 1) := ⟨k, rfl⟩
    rw [dif_pos h, ← Var.minted_injective h.choose_spec]
  · exact dif_neg fun ⟨k, hk⟩ => hx k hk

namespace Exchanges

variable {reserved reserved' : List String} {f : Var → Var} (h : Exchanges reserved reserved' f)

include h

/-- What is reserved is not exchanged. -/
theorem fixes {n : String} (hn : n ∈ unitName :: reserved) : f ⟨n⟩ = ⟨n⟩ := by
  refine h.others _ fun k heq => Var.minted_not_reserved reserved k ?_
  rw [← heq]
  exact hn

/-- The unit variable is reserved in any case. -/
theorem fixes_unit : f .unit = .unit := h.fixes List.mem_cons_self

/-- No two variables become the same. -/
theorem injective (hsub : reserved ⊆ reserved') : Function.Injective f := by
  -- a variable that stays is not what a minted one is exchanged for
  have hapart : ∀ k y, (∀ j, y ≠ .minted reserved (j + 1)) →
      f (.minted reserved (k + 1)) ≠ f y := by
    intro k y hy heq
    obtain ⟨j, hj⟩ := exists_minted hsub k
    rw [h.minted, h.others y hy, hj] at heq
    exact hy j heq.symm
  intro x y heq
  by_cases hx : ∃ k, x = .minted reserved (k + 1) <;>
    by_cases hy : ∃ k, y = .minted reserved (k + 1)
  · obtain ⟨k, rfl⟩ := hx
    obtain ⟨j, rfl⟩ := hy
    rw [h.minted, h.minted] at heq
    rw [Var.minted_injective heq]
  · obtain ⟨k, rfl⟩ := hx
    exact absurd heq (hapart k y (not_exists.1 hy))
  · obtain ⟨k, rfl⟩ := hy
    exact absurd heq.symm (hapart k x (not_exists.1 hx))
  · rwa [h.others x (not_exists.1 hx), h.others y (not_exists.1 hy)] at heq

end Exchanges

/-! ## Scopes side by side -/

/-- The second chain binds the images of what the first one binds.  At the outermost level it may
    bind more names. -/
inductive Scopes.Images (f : Var → Var) : Scopes Var → Scopes Var → Prop
  | root {frame frame'} (hframe : ∀ n x, frame.get? n = some x → frame'.get? n = some (f x)) :
      Images f (.root frame) (.root frame')
  | child {frame frame' outer outer'} (hframe : ∀ n, frame'.get? n = (frame.get? n).map f)
      (houter : Images f outer outer') : Images f (.child frame outer) (.child frame' outer')

namespace Scopes.Images

variable {f : Var → Var} {s t : Scopes Var}

/-- A name that is bound to a variable is bound to its image on the other side. -/
theorem lookup (h : Images f s t) {n : String} {x : Var} (hx : s.lookup n = some x) :
    t.lookup n = some (f x) := by
  induction h with
  | root hframe => exact hframe n x hx
  | @child frame frame' outer outer' hframe _ ih =>
    simp only [Scopes.lookup, hframe] at hx ⊢
    rcases hfound : frame.get? n with _ | y <;> rw [hfound] at hx
    · exact ih hx
    · exact congrArg (fun y => some (f y)) (Option.some.inj hx)

/-- A new scope has nothing in it on either side. -/
theorem push (h : Images f s t) : Images f s.push t.push := .child (fun _ => rfl) h

/-- Leaving a scope leaves both. -/
theorem pop (h : Images f s t) : Images f s.pop t.pop := by
  cases h with
  | root hframe => exact .root hframe
  | child _ houter => exact houter

/-- A declaration binds the image. -/
theorem define (h : Images f s t) (n : String) (x : Var) :
    Images f (s.define n x) (t.define n (f x)) := by
  cases h with
  | root hframe =>
    refine .root fun m y hy => ?_
    rw [Frame.get?_put] at hy ⊢
    split at hy
    · rw [if_pos ‹_›, Option.some.inj hy]
    · rw [if_neg ‹_›]
      exact hframe m y hy
  | child hframe houter =>
    refine .child (fun m => ?_) houter
    rw [Frame.get?_put, Frame.get?_put]
    split
    · rfl
    · exact hframe m

end Scopes.Images

/-! ## Drafts side by side -/

namespace Draft

variable {reserved reserved' : List String} {f : Var → Var} {d t : Draft} {k : Nat}

/-- So many variables have been minted, none of them with one of these names. -/
def HasMinted (reserved : List String) (k : Nat) (d : Draft) : Prop :=
  d.reserved = unitName :: reserved ∧ d.minted = mintedNumber (unitName :: reserved) k

/-- The next variable is the next one of the list. -/
theorem HasMinted.next (h : d.HasMinted reserved k) : d.next = .minted reserved (k + 1) := by
  show Var.numbered (firstFree d.reserved (d.minted + 1)) = _
  rw [h.1, h.2]
  rfl

/-- It has been minted then. -/
theorem HasMinted.grown (h : d.HasMinted reserved k) : d.grown.HasMinted reserved (k + 1) := by
  refine ⟨h.1, ?_⟩
  rw [minted_grown, h.1, h.2]
  rfl

/-- The second draft is the first one with other variables. -/
structure Exchanged (reserved reserved' : List String) (f : Var → Var) (d t : Draft) : Prop where
  exchange : Exchanges reserved reserved' f
  injective : Function.Injective f
  scopes : Scopes.Images f d.scopes t.scopes
  code : t.code = d.code.map (Instr.rename f)
  labels : t.labels = d.labels
  declared : t.declared = d.declared.map f
  minting : ∃ k, d.HasMinted reserved k ∧ t.HasMinted reserved' k

/-- Before anything is lowered the drafts have nothing but their reserved names, which are not
    exchanged. -/
theorem exchanged_start (hf : Exchanges reserved reserved' f) (hsub : reserved ⊆ reserved') :
    (start reserved).Exchanged reserved reserved' f (start reserved') where
  exchange := hf
  injective := hf.injective hsub
  scopes := by
    have hbinding (n : String) (x : Var) (hx : (start reserved).scopes.binding 0 n = some x) :
        (start reserved').scopes.binding 0 n = some (f x) := by
      obtain ⟨-, hn, rfl⟩ := binding_start.1 hx
      rw [hf.fixes (List.mem_cons_of_mem _ hn)]
      exact binding_start.2 ⟨rfl, hsub hn, rfl⟩
    have hdepth : (start reserved).scopes.depth = 0 := Scopes.depth_ofList _
    have hdepth' : (start reserved').scopes.depth = 0 := Scopes.depth_ofList _
    generalize (start reserved).scopes = s at *
    generalize (start reserved').scopes = s' at *
    cases s with
    | child => contradiction
    | root frame =>
      cases s' with
      | child => contradiction
      | root frame' => exact .root hbinding
  code := Array.map_empty.symm
  labels := rfl
  declared := rfl
  minting := ⟨0, ⟨rfl, rfl⟩, rfl, rfl⟩

namespace Exchanged

variable (h : d.Exchanged reserved reserved' f t)

include h

/-- The next variable of one draft is sent to the next one of the other. -/
theorem next : t.next = f d.next := by
  obtain ⟨k, hd, ht⟩ := h.minting
  rw [hd.next, ht.next, h.exchange.minted]

/-- The same variables have been declared. -/
theorem mem_declared {x : Var} : f x ∈ t.declared ↔ x ∈ d.declared := by
  rw [h.declared, List.mem_map_of_injective h.injective]

/-- Nothing but unit is exchanged for unit, so the two drafts agree on whether a result is unit. -/
theorem eq_unit_iff {x : Var} : f x = .unit ↔ x = .unit := by
  rw [← h.exchange.fixes_unit, h.injective.eq_iff, h.exchange.fixes_unit]

/-- Writing an instruction and its image keeps the two drafts in step. -/
theorem emit {action action' : Action} (haction : action.rename f = action') (loc : Location) :
    (d.emit action loc).Exchanged reserved reserved' f (t.emit action' loc) :=
  { h with
    code := by
      subst haction
      simp only [Draft.emit, h.code, Array.map_push]
      rfl }

/-- The image of a copy copies the images. -/
theorem emit_copy {source source' dest dest' : Var} (hsource : source' = f source)
    (hdest : dest' = f dest) (loc : Location) :
    (d.emit (.copy source dest) loc).Exchanged reserved reserved' f
      (t.emit (.copy source' dest') loc) := by
  rw [hsource, hdest]
  exact h.emit rfl loc

/-- Minting a variable on both sides mints the k-th one on each. -/
theorem grown : d.grown.Exchanged reserved reserved' f t.grown :=
  { h with
    minting := by
      obtain ⟨k, hd, ht⟩ := h.minting
      exact ⟨k + 1, hd.grown, ht.grown⟩ }

/-- An instruction for a new variable is written for its image. -/
theorem emitNew {action action' : Var → Action}
    (haction : ∀ x, (action x).rename f = action' (f x)) (loc : Location) :
    (d.emitNew action loc).Exchanged reserved reserved' f (t.emitNew action' loc) := by
  rw [Draft.emitNew, Draft.emitNew, h.next]
  exact h.grown.emit (haction d.next) loc

/-- Labels are not exchanged at all. -/
theorem withLabels (count : Nat) :
    (d.withLabels count).Exchanged reserved reserved' f (t.withLabels count) :=
  { h with labels := congrArg (· + count) h.labels }

/-- A declared variable has a declared image. -/
theorem declare (n : String) {x x' : Var} (hx : x' = f x) :
    (d.declare n x).Exchanged reserved reserved' f (t.declare n x') := by
  rw [hx]
  exact { h with
    scopes := h.scopes.define n x
    declared := congrArg (f x :: ·) h.declared }

/-- Entering a scope keeps the drafts in step. -/
theorem push : d.push.Exchanged reserved reserved' f t.push := { h with scopes := h.scopes.push }

/-- So does leaving one. -/
theorem pop : d.pop.Exchanged reserved reserved' f t.pop := { h with scopes := h.scopes.pop }

end Exchanged

end Draft

/-! ## Lowering side by side -/

namespace Lowering

variable {reserved reserved' : List String} {f : Var → Var}

/-- A variable is copied out on both sides or on neither. -/
theorem settles_exchanged {x x' : Var} {overwritten : Bool} {loc : Location} {d d' t : Draft}
    (hsettle : Settles x overwritten loc d x' d') (h : d.Exchanged reserved reserved' f t) :
    ∃ t', Settles (f x) overwritten loc t (f x') t' ∧ d'.Exchanged reserved reserved' f t' := by
  cases hsettle with
  | keep hsafe =>
    refine ⟨t, .keep ?_, h⟩
    rwa [h.mem_declared]
  | copy hdeclared hoverwritten =>
    rw [← h.next]
    exact ⟨_, .copy (h.mem_declared.2 hdeclared) hoverwritten, h.emitNew (fun _ => rfl) loc⟩

/-- Which way round the labels stand depends on the operator only. -/
theorem rename_logicBranch (op : String) (x : Var) (rightLabel skipLabel : Label) :
    (logicBranch op x rightLabel skipLabel).rename f =
      logicBranch op (f x) rightLabel skipLabel := by
  unfold logicBranch
  split <;> rfl

mutual

/-- The code of an expression with other variables is its code where those are minted. -/
theorem lowers_exchanged {e : Expr} {d d' t : Draft} {x : Var} :
    Lowers e d x d' → d.Exchanged reserved reserved' f t →
      ∃ t', Lowers e t (f x) t' ∧ d'.Exchanged reserved reserved' f t'
  | .int, h => by
    rw [← h.next]
    exact ⟨_, .int, h.emitNew (fun _ => rfl) _⟩
  | .bool, h => by
    rw [← h.next]
    exact ⟨_, .bool, h.emitNew (fun _ => rfl) _⟩
  | .unit, h => by
    rw [h.exchange.fixes_unit]
    exact ⟨_, .unit, h⟩
  | .name hbound, h => ⟨t, .name (h.scopes.lookup hbound), h⟩
  | .unary hcallee hoperand, h => by
    obtain ⟨t₁, hoperand', h₁⟩ := lowers_exchanged hoperand h
    rw [← h₁.next]
    exact ⟨_, .unary (h.scopes.lookup hcallee) hoperand', h₁.emitNew (fun _ => rfl) _⟩
  | .assign hcell hright, h => by
    obtain ⟨t₁, hright', h₁⟩ := lowers_exchanged hright h
    exact ⟨_, .assign (h.scopes.lookup hcell) hright', h₁.emit rfl _⟩
  | @Lowers.logic _ d₁ d₂ _ loc op _ _ _ y _ skipLabel endLabel hop hleft hrightLabel hskipLabel
      hendLabel hright hmerge, h => by
    obtain ⟨t₁, hleft', h₁⟩ := lowers_exchanged hleft h
    obtain ⟨t₂, hright', h₂⟩ := lowers_exchanged hright
      (((h₁.withLabels 3).emit (rename_logicBranch ..) loc).grown.emit rfl loc)
    -- behind the right side stand three instructions that mint nothing
    have h₃ : Draft.Exchanged reserved reserved' f
        (((d₂.emit (.copy y d₁.next) loc).emit (.jump endLabel) loc).emit (.label skipLabel) loc)
        (((t₂.emit (.copy (f y) t₁.next) loc).emit (.jump endLabel) loc).emit (.label skipLabel)
          loc) := ((h₂.emit_copy rfl h₁.next loc).emit rfl loc).emit rfl loc
    rw [← hmerge] at h₃
    rw [← h₁.labels] at hrightLabel hskipLabel hendLabel
    rw [← h₁.next]
    exact ⟨_, .logic hop hleft' hrightLabel hskipLabel hendLabel hright' rfl,
      ((h₃.emitNew (fun _ => rfl) loc).emit_copy h₃.next h₁.next loc).emit rfl loc⟩
  | .operation hassign hlogic hcallee hleft hsettle hright, h => by
    obtain ⟨t₁, hleft', h₁⟩ := lowers_exchanged hleft h
    obtain ⟨t₂, hsettle', h₂⟩ := settles_exchanged hsettle h₁
    obtain ⟨t₃, hright', h₃⟩ := lowers_exchanged hright h₂
    rw [← h₃.next]
    exact ⟨_, .operation hassign hlogic (h.scopes.lookup hcallee) hleft' hsettle' hright',
      h₃.emitNew (fun _ => rfl) _⟩
  | .ifThen hcondition hthenLabel hendLabel hthen, h => by
    obtain ⟨t₁, hcondition', h₁⟩ := lowers_exchanged hcondition h
    obtain ⟨t₂, hthen', h₂⟩ := lowers_exchanged hthen
      (((h₁.withLabels 2).emit rfl _).emit rfl _)
    rw [← h₁.labels] at hthenLabel hendLabel
    rw [h.exchange.fixes_unit]
    exact ⟨_, .ifThen hcondition' hthenLabel hendLabel hthen', h₂.emit rfl _⟩
  | .ifElseUnit hcondition hthenLabel helseLabel hendLabel hthen helse, h => by
    obtain ⟨t₁, hcondition', h₁⟩ := lowers_exchanged hcondition h
    obtain ⟨t₂, hthen', h₂⟩ := lowers_exchanged hthen
      (((h₁.withLabels 3).emit rfl _).emit rfl _)
    obtain ⟨t₃, helse', h₃⟩ := lowers_exchanged helse ((h₂.emit rfl _).emit rfl _)
    rw [← h₁.labels] at hthenLabel helseLabel hendLabel
    rw [h.exchange.fixes_unit] at hthen' ⊢
    exact ⟨_, .ifElseUnit hcondition' hthenLabel helseLabel hendLabel hthen' helse',
      h₃.emit rfl _⟩
  | .ifElse hcondition hthenLabel helseLabel hendLabel hthen hvalue helse, h => by
    obtain ⟨t₁, hcondition', h₁⟩ := lowers_exchanged hcondition h
    obtain ⟨t₂, hthen', h₂⟩ := lowers_exchanged hthen
      (((h₁.withLabels 3).emit rfl _).emit rfl _)
    obtain ⟨t₃, helse', h₃⟩ := lowers_exchanged helse
      (((h₂.emitNew (fun _ => rfl) _).emit rfl _).emit rfl _)
    rw [← h₁.labels] at hthenLabel helseLabel hendLabel
    rw [← h₂.next]
    exact ⟨_, .ifElse hcondition' hthenLabel helseLabel hendLabel hthen' (mt h.eq_unit_iff.1 hvalue)
      helse', (h₃.emit_copy rfl h₂.next _).emit rfl _⟩
  | .call hfunction hsettle harguments, h => by
    obtain ⟨t₁, hfunction', h₁⟩ := lowers_exchanged hfunction h
    obtain ⟨t₂, hsettle', h₂⟩ := settles_exchanged hsettle h₁
    obtain ⟨t₃, harguments', h₃⟩ := lowersAll_exchanged harguments h₂
    rw [← h₃.next]
    exact ⟨_, .call hfunction' hsettle' harguments', h₃.emitNew (fun _ => rfl) _⟩
  | .var hvalue, h => by
    obtain ⟨t₁, hvalue', h₁⟩ := lowers_exchanged hvalue h
    rw [← h₁.next]
    exact ⟨_, .var hvalue', (h₁.emitNew (fun _ => rfl) _).declare _ h₁.next⟩
  | .block hbody, h => by
    obtain ⟨t₁, hbody', h₁⟩ := lowersBody_exchanged hbody h.push
    rw [h.exchange.fixes_unit] at hbody'
    exact ⟨_, .block hbody', h₁.pop⟩

/-- Operands one after the other, each by `lowers_exchanged`. -/
theorem lowersAll_exchanged {es : List Expr} {d d' t : Draft} {xs : List Var} :
    LowersAll es d xs d' → d.Exchanged reserved reserved' f t →
      ∃ t', LowersAll es t (xs.map f) t' ∧ d'.Exchanged reserved reserved' f t'
  | .nil, h => ⟨t, .nil, h⟩
  | .cons hfirst hsettle hrest, h => by
    obtain ⟨t₁, hfirst', h₁⟩ := lowers_exchanged hfirst h
    obtain ⟨t₂, hsettle', h₂⟩ := settles_exchanged hsettle h₁
    obtain ⟨t₃, hrest', h₃⟩ := lowersAll_exchanged hrest h₂
    exact ⟨t₃, .cons hfirst' hsettle' hrest', h₃⟩

/-- Statements one after the other; the last value is exchanged as well. -/
theorem lowersBody_exchanged {es : List Expr} {d d' t : Draft} {last x : Var} :
    LowersBody last es d x d' → d.Exchanged reserved reserved' f t →
      ∃ t', LowersBody (f last) es t (f x) t' ∧ d'.Exchanged reserved reserved' f t'
  | .nil, h => ⟨t, .nil, h⟩
  | .cons hfirst hrest, h => by
    obtain ⟨t₁, hfirst', h₁⟩ := lowers_exchanged hfirst h
    obtain ⟨t₂, hrest', h₂⟩ := lowersBody_exchanged hrest h₁
    exact ⟨t₂, .cons hfirst' hrest', h₂⟩

end

/-- The call that prints a value at the end is the one of an image. -/
theorem lowersProgram_exchanged {program : Expr} {ty : Ty} {d d' t : Draft}
    (hprogram : LowersProgram program ty d d') (h : d.Exchanged reserved reserved' f t) :
    ∃ t', LowersProgram program ty t t' ∧ d'.Exchanged reserved reserved' f t' := by
  cases hprogram with
  | silent hprinter hlowers =>
    obtain ⟨t', hlowers', h'⟩ := lowers_exchanged hlowers h
    exact ⟨t', .silent hprinter hlowers', h'⟩
  | prints hprinter hlowers hcallee =>
    obtain ⟨t', hlowers', h'⟩ := lowers_exchanged hlowers h
    exact ⟨_, .prints hprinter hlowers' (h'.scopes.lookup hcallee), h'.emitNew (fun _ => rfl) _⟩

/-- With more reserved names a program that had code has code still, and the same but for the
    variables that are minted: the k-th of them takes the place of the k-th.  Labels, locations and
    the order of the instructions do not change. -/
theorem generate_exchanged (hsub : reserved ⊆ reserved') {program : Expr} {ty : Ty}
    {code : List Instr} (hcode : generate reserved program ty = .ok code) :
    ∃ f, Exchanges reserved reserved' f ∧
      generate reserved' program ty = .ok (code.map (Instr.rename f)) := by
  obtain ⟨f, hf⟩ := exists_exchanges reserved reserved'
  obtain ⟨d, hprogram, rfl⟩ := generate_eq_ok.1 hcode
  obtain ⟨t, hprogram', h⟩ := lowersProgram_exchanged hprogram (Draft.exchanged_start hf hsub)
  refine ⟨f, hf, generate_eq_ok.2 ⟨t, hprogram', ?_⟩⟩
  rw [h.code, Array.toList_map]

/-- A sum, once `x1` and `x3` are reserved. -/
theorem generate_exchanged_sum :
    generate ["+", "print_int"]
        (.binary (.of 1 3) "+" (.int (.of 1 1) 1) (.int (.of 1 5) 2)) .int =
      .ok [⟨.loadInt 1 ⟨"x1"⟩, .of 1 1⟩, ⟨.loadInt 2 ⟨"x2"⟩, .of 1 5⟩,
        ⟨.call ⟨"+"⟩ [⟨"x1"⟩, ⟨"x2"⟩] ⟨"x3"⟩, .of 1 3⟩,
        ⟨.call ⟨"print_int"⟩ [⟨"x3"⟩] ⟨"x4"⟩, .of 1 3⟩] ∧
    ∃ f, Exchanges ["+", "print_int"] ["+", "print_int", "x1", "x3"] f ∧
      generate ["+", "print_int", "x1", "x3"]
          (.binary (.of 1 3) "+" (.int (.of 1 1) 1) (.int (.of 1 5) 2)) .int =
        .ok ([⟨.loadInt 1 ⟨"x1"⟩, .of 1 1⟩, ⟨.loadInt 2 ⟨"x2"⟩, .of 1 5⟩,
          ⟨.call ⟨"+"⟩ [⟨"x1"⟩, ⟨"x2"⟩] ⟨"x3"⟩, .of 1 3⟩,
          ⟨.call ⟨"print_int"⟩ [⟨"x3"⟩] ⟨"x4"⟩, .of 1 3⟩].map (Instr.rename f)) := by
  have hcode : generate ["+", "print_int"]
      (.binary (.of 1 3) "+" (.int (.of 1 1) 1) (.int (.of 1 5) 2)) .int =
    .ok [⟨.loadInt 1 ⟨"x1"⟩, .of 1 1⟩, ⟨.loadInt 2 ⟨"x2"⟩, .of 1 5⟩,
      ⟨.call ⟨"+"⟩ [⟨"x1"⟩, ⟨"x2"⟩] ⟨"x3"⟩, .of 1 3⟩,
      ⟨.call ⟨"print_int"⟩ [⟨"x3"⟩] ⟨"x4"⟩, .of 1 3⟩] := by with_unfolding_all rfl
  exact ⟨hcode, generate_exchanged (by decide) hcode⟩

end Lowering

end ExprLang
