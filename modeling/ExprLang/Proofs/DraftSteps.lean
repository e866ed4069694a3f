/-
  DRAFT STEPS: what lowering does to a draft, whether it succeeds or fails.

  Lowering hands out variables and labels, writes instructions and moves between scopes, and it
  may stop anywhere.  `Wrote assigning d xs ls d'` says that such steps lead from the draft `d` to
  the draft `d'`.  The variables `xs` and the labels `ls` are those handed out on the way, in their
  order; the instructions written on the way use no other labels and, unless `assigning`, write no
  other variables.  Whatever is no copy writes the variable that was minted for it.

  `writes_lower` proves this of every tree, by following `lower` from one small step to the next.
  What one step preserves is then preserved by lowering as a whole, also where it fails.
-/
import ExprLang.Proofs.DraftInvariants

namespace ExprLang

/-- The labels that an instruction mentions. -/
def Instr.labels (i : Instr) : List Label := i.defines.toList ++ i.targets

namespace Draft

/-! ## Steps -/

/-- What the labels of the constructs are called, up to their numbers. -/
def stems : List String :=
  ["then", "else", "if_end", "and_right", "and_skip", "and_end", "or_right", "or_skip", "or_end"]

/-- Steps from a draft to another, with the variables and labels handed out on the way. -/
inductive Wrote (assigning : Bool) (d : Draft) : List Var → List Label → Draft → Prop
  | start : Wrote assigning d [] [] d
  | mint {xs ls d'} (h : Wrote assigning d xs ls d') :
      Wrote assigning d (xs ++ [d'.next]) ls d'.grown
  | mintLabel {xs ls d' stem} (h : Wrote assigning d xs ls d') (hstem : stem ∈ stems) :
      Wrote assigning d xs (ls ++ [.numbered stem (d'.labels + 1)]) (d'.withLabels 1)
  | emit {xs ls d' action loc} (h : Wrote assigning d xs ls d')
      (hcopy : (⟨action, loc⟩ : Instr).isCopy = false → (⟨action, loc⟩ : Instr).writes = none)
      (hwrites : ∀ x, (⟨action, loc⟩ : Instr).writes = some x → x ∈ xs ∨ assigning = true)
      (hlabels : ∀ l ∈ (⟨action, loc⟩ : Instr).labels, l ∈ ls) :
      Wrote assigning d xs ls (d'.emit action loc)
  | emitNew {xs ls d'} {action : Var → Action} {loc} (h : Wrote assigning d xs ls d')
      (hwrites : (⟨action d'.next, loc⟩ : Instr).writes = some d'.next)
      (hlabels : (⟨action d'.next, loc⟩ : Instr).labels = []) :
      Wrote assigning d (xs ++ [d'.next]) ls (d'.emitNew action loc)
  | rescope {xs ls d' scopes declared} (h : Wrote assigning d xs ls d') :
      Wrote assigning d xs ls { d' with scopes := scopes, declared := declared }

/-- A variable that was minted between two drafts. -/
def MintedSince (d d' : Draft) (x : Var) : Prop :=
  ∃ k, d.minted < k ∧ k ≤ d'.minted ∧ x = .numbered k ∧ x.name ∉ d.reserved

/-- Some steps lead from a draft to another. -/
def Reaches (assigning : Bool) (d d' : Draft) : Prop := ∃ xs ls, Wrote assigning d xs ls d'

namespace Wrote

variable {assigning : Bool} {d d' d'' : Draft} {xs ys : List Var} {ls ms : List Label}
  {x y : Var} {l l' : Label} {loc : Location}

/-- Steps with some variables and labels are steps. -/
theorem reaches (h : Wrote assigning d xs ls d') : Reaches assigning d d' := ⟨xs, ls, h⟩

/-- What was handed out by the later steps comes behind. -/
theorem trans (h : Wrote assigning d xs ls d') (h' : Wrote assigning d' ys ms d'') :
    Wrote assigning d (xs ++ ys) (ls ++ ms) d'' := by
  induction h' with
  | start =>
    rw [List.append_nil, List.append_nil]
    exact h
  | mint _ ih =>
    rw [← List.append_assoc]
    exact ih.mint
  | mintLabel _ hstem ih =>
    rw [← List.append_assoc]
    exact ih.mintLabel hstem
  | emit _ hcopy hwrites hlabels ih =>
    exact ih.emit hcopy (fun x hx => (hwrites x hx).imp_left (List.mem_append_right _))
      fun l hl => List.mem_append_right _ (hlabels l hl)
  | emitNew _ hwrites hlabels ih =>
    rw [← List.append_assoc]
    exact ih.emitNew hwrites hlabels
  | rescope _ ih => exact ih.rescope

/-! ### Instructions -/

/-- Only an assignment copies into a variable that was not handed out on the way. -/
theorem emit_copy (h : Wrote assigning d xs ls d') (hy : y ∈ xs ∨ assigning = true) :
    Wrote assigning d xs ls (d'.emit (.copy x y) loc) := by
  refine h.emit (by simp [Instr.isCopy]) ?_ (by simp [Instr.labels, Instr.defines, Instr.targets])
  rintro z ⟨⟩
  exact hy

/-- This and the next ones: control instructions use the labels that were handed out, and write
    nothing. -/
theorem emit_label (h : Wrote assigning d xs ls d') (hl : l ∈ ls) :
    Wrote assigning d xs ls (d'.emit (.label l) loc) :=
  h.emit (fun _ => rfl) (by simp [Instr.writes])
    (by simpa [Instr.labels, Instr.defines, Instr.targets] using hl)

theorem emit_jump (h : Wrote assigning d xs ls d') (hl : l ∈ ls) :
    Wrote assigning d xs ls (d'.emit (.jump l) loc) :=
  h.emit (fun _ => rfl) (by simp [Instr.writes])
    (by simpa [Instr.labels, Instr.defines, Instr.targets] using hl)

theorem emit_branch (h : Wrote assigning d xs ls d') (hl : l ∈ ls) (hl' : l' ∈ ls) :
    Wrote assigning d xs ls (d'.emit (.branch x l l') loc) :=
  h.emit (fun _ => rfl) (by simp [Instr.writes])
    (by simpa [Instr.labels, Instr.defines, Instr.targets] using ⟨hl, hl'⟩)

theorem emit_logicBranch {op : String} (h : Wrote assigning d xs ls d') (hl : l ∈ ls)
    (hl' : l' ∈ ls) : Wrote assigning d xs ls (d'.emit (Lowering.logicBranch op x l l') loc) := by
  unfold Lowering.logicBranch
  split
  · exact h.emit_branch hl' hl
  · exact h.emit_branch hl hl'

/-! ### What the steps preserve -/

/-- No step reserves a name. -/
theorem reserved (h : Wrote assigning d xs ls d') : d'.reserved = d.reserved := by
  induction h with
  | start => rfl
  | mint _ ih | mintLabel _ _ ih | emit _ _ _ _ ih | emitNew _ _ _ ih | rescope _ ih => exact ih

/-- One more variable was minted. -/
theorem mintedSince_grown (hreserved : d'.reserved = d.reserved) (hle : d.minted ≤ d'.minted)
    (hminted : ∀ x ∈ xs, MintedSince d d' x) :
    d.minted ≤ d'.grown.minted ∧ ∀ x ∈ xs ++ [d'.next], MintedSince d d'.grown x := by
  have hlt := d'.minted_lt_grown
  refine ⟨by omega, fun x hx => ?_⟩
  rcases List.mem_append.1 hx with hx | hx
  · obtain ⟨k, hk, hk', hname⟩ := hminted x hx
    exact ⟨k, hk, by omega, hname⟩
  · obtain rfl := List.mem_singleton.1 hx
    exact ⟨_, by omega, Nat.le_refl _, rfl, hreserved ▸ d'.next_not_reserved⟩

/-- Variables are handed out with greater and greater numbers, none of them reserved. -/
theorem mintedSince (h : Wrote assigning d xs ls d') :
    d.minted ≤ d'.minted ∧ ∀ x ∈ xs, MintedSince d d' x := by
  induction h with
  | start => exact ⟨Nat.le_refl _, by simp⟩
  | mint h ih | emitNew h _ _ ih => exact mintedSince_grown h.reserved ih.1 ih.2
  | mintLabel _ _ ih | emit _ _ _ _ ih | rescope _ ih => exact ih

/-- Labels are handed out with a stem and a number. -/
theorem numbered_of_mem (h : Wrote assigning d xs ls d') :
    ∀ l ∈ ls, ∃ stem ∈ stems, ∃ k, l = .numbered stem k := by
  induction h with
  | start => simp
  | @mintLabel xs ls d' stem _ hstem ih =>
    intro l hl
    rcases List.mem_append.1 hl with hl | hl
    · exact ih l hl
    · exact ⟨stem, hstem, _, List.mem_singleton.1 hl⟩
  | mint _ ih | emit _ _ _ _ ih | emitNew _ _ _ ih | rescope _ ih => exact ih

/-- One more instruction of a kind is written at the end. -/
theorem code_grows {P : Instr → Prop} {i : Instr}
    (h : ∃ added, d'.code.toList = d.code.toList ++ added ∧ ∀ j ∈ added, P j)
    (hcode : d''.code.toList = d'.code.toList ++ [i]) (hi : P i) :
    ∃ added, d''.code.toList = d.code.toList ++ added ∧ ∀ j ∈ added, P j := by
  obtain ⟨added, hadded, hP⟩ := h
  refine ⟨added ++ [i], by rw [hcode, hadded, List.append_assoc], fun j hj => ?_⟩
  rcases List.mem_append.1 hj with hj | hj
  · exact hP j hj
  · exact List.mem_singleton.1 hj ▸ hi

/-- Code is written at the end, and uses what was handed out. -/
theorem code (h : Wrote assigning d xs ls d') :
    ∃ added, d'.code.toList = d.code.toList ++ added ∧ ∀ i ∈ added,
      (∀ x, i.writes = some x → x ∈ xs ∨ assigning = true) ∧ ∀ l ∈ i.labels, l ∈ ls := by
  induction h with
  | start => exact ⟨[], by simp⟩
  | mint _ ih =>
    obtain ⟨added, hcode, hadded⟩ := ih
    refine ⟨added, hcode, fun i hi => ⟨fun x hx => ?_, (hadded i hi).2⟩⟩
    exact ((hadded i hi).1 x hx).imp_left (List.mem_append_left _)
  | mintLabel _ _ ih =>
    obtain ⟨added, hcode, hadded⟩ := ih
    refine ⟨added, hcode, fun i hi => ⟨(hadded i hi).1, fun l hl => ?_⟩⟩
    exact List.mem_append_left _ ((hadded i hi).2 l hl)
  | emit _ _ hwrites hlabels ih => exact code_grows ih (code_emit _ _ _) ⟨hwrites, hlabels⟩
  | @emitNew xs ls d' action loc _ hwrites hlabels ih =>
    obtain ⟨added, hcode, hadded⟩ := ih
    refine code_grows ⟨added, hcode, fun i hi => ⟨fun x hx => ?_, (hadded i hi).2⟩⟩
      (code_emit d'.grown _ _) ⟨fun x hx => ?_, by simp [hlabels]⟩
    · exact ((hadded i hi).1 x hx).imp_left (List.mem_append_left _)
    · obtain rfl := Option.some.inj (hwrites.symm.trans hx)
      exact .inl (by simp)
  | rescope _ ih => exact ih

end Wrote

end Draft

/-! ## What lowering leads to -/

namespace Lowering

open Draft

section

variable {α : Type} {d : Draft} {loc : Location} {bad : LoweringError → Draft → Prop}

/-- This and the next ones say where a small step of lowering leads; none of them can fail. -/
@[simp] theorem leads_mint {good : Var → Draft → Prop} :
    Leads mint d good bad ↔ good d.next d.grown := Iff.rfl

/-- A label that is taken has the next number. -/
@[simp] theorem leads_mintLabel {stem : String} {good : Label → Draft → Prop} :
    Leads (mintLabel stem) d good bad ↔
      good (.numbered stem (d.labels + 1)) (d.withLabels 1) := Iff.rfl

/-- An instruction that is written stands at the end of the code. -/
@[simp] theorem leads_emit {action : Action} {good : Unit → Draft → Prop} :
    Leads (emit action loc) d good bad ↔ good () (d.emit action loc) := Iff.rfl

/-- A declaration binds its name in the innermost scope. -/
@[simp] theorem leads_declare {n : String} {x : Var} {good : Unit → Draft → Prop} :
    Leads (declare n x) d good bad ↔ good () (d.declare n x) := Iff.rfl

/-- A call writes a new variable. -/
@[simp] theorem leads_call {callee : Var} {xs : List Var} {good : Var → Draft → Prop} :
    Leads (call callee xs loc) d good bad ↔
      good d.next (d.emitNew (.call callee xs) loc) := Iff.rfl

end

/-- However it ends, a step of lowering is a sequence of steps of its draft. -/
def Writes {α : Type} (assigning : Bool) (act : Lower α) : Prop :=
  ∀ d, Leads act d (fun _ => Reaches assigning d) fun _ => Reaches assigning d

section

variable {α : Type} {assigning : Bool} {d d' : Draft} {xs : List Var} {ls : List Label}

/-- Behind what was written, a part of a construct writes more, and the rest goes on from there. -/
theorem leads_behind {act : Lower α} {good : α → Draft → Prop} (h : Wrote assigning d xs ls d')
    (hact : Writes assigning act)
    (hgood : ∀ a ys ms d'', Wrote assigning d (xs ++ ys) (ls ++ ms) d'' → good a d'') :
    Leads act d' good fun _ => Reaches assigning d :=
  (hact d').mono (fun a _ ⟨_, _, h'⟩ => hgood a _ _ _ (h.trans h'))
    fun _ _ ⟨_, _, h'⟩ => (h.trans h').reaches

/-- Looking up a name writes nothing. -/
theorem leads_behind_lookup {n : String} {loc : Location} {good : Var → Draft → Prop}
    (h : Wrote assigning d xs ls d') (hgood : ∀ x, good x d') :
    Leads (lookup n loc) d' good fun _ => Reaches assigning d := by
  unfold Leads lookup
  cases d'.scopes.lookup n with
  | none => exact h.reaches
  | some x => exact hgood x

/-- Settling an operand writes a copy into a new variable, or nothing. -/
theorem writes_settle (x : Var) (overwritten : Bool) (loc : Location) :
    Writes assigning (settle x overwritten loc) := by
  intro d
  show Leads (if d.declared.contains x && overwritten then (do
    let snapshot ← mint
    emit (.copy x snapshot) loc
    pure snapshot : Lower Var) else pure x) d _ _
  split
  · simp only [leads_bind, leads_mint, leads_emit, leads_pure]
    exact (Wrote.start.emitNew rfl rfl).reaches
  · exact Wrote.start.reaches

end

variable {assigning : Bool}

/-- The labels of conditionals are among those of the language. -/
theorem mem_stems_then : "then" ∈ stems := by decide

theorem mem_stems_else : "else" ∈ stems := by decide

theorem mem_stems_ifEnd : "if_end" ∈ stems := by decide

/-- So are those of the logical operators. -/
theorem mem_stems_of_logic {op : String} (hop : op = "and" ∨ op = "or") :
    op ++ "_right" ∈ stems ∧ op ++ "_skip" ∈ stems ∧ op ++ "_end" ∈ stems := by
  rcases hop with rfl | rfl <;> decide

mutual

/-- Lowering a tree is a sequence of steps, however it ends.  It writes only variables that it
    mints, unless the tree assigns. -/
theorem writes_lower : (e : Expr) → (assigns e = true → assigning = true) →
    Writes assigning (lower e)
  | .int loc n, _ => fun d => by
    simp only [lower, leads_bind, leads_mint, leads_emit, leads_pure]
    exact (Wrote.start.emitNew rfl rfl).reaches
  | .bool loc b, _ => fun d => by
    simp only [lower, leads_bind, leads_mint, leads_emit, leads_pure]
    exact (Wrote.start.emitNew rfl rfl).reaches
  | .unit _, _ => fun d => Wrote.start.reaches
  | .name loc n, _ => fun d => leads_behind_lookup .start fun _ => Wrote.start.reaches
  | .unary loc op operand, h => fun d => by
    simp only [lower, leads_bind, leads_call]
    refine leads_behind_lookup .start fun callee => ?_
    refine leads_behind .start (writes_lower operand h) fun v _ _ d₁ h₁ => ?_
    exact (h₁.emitNew rfl rfl).reaches
  | .binary loc op left right, h => fun d => by
    have hright : assigns right = true → assigning = true := fun hr => h (by simp [assigns, hr])
    by_cases hassign : op = "="
    · subst hassign
      rw [lower.eq_def]
      simp only [if_true]
      split
      · simp only [leads_bind, leads_emit, leads_pure]
        refine leads_behind_lookup .start fun cell => ?_
        refine leads_behind .start (writes_lower right hright) fun v _ _ d₁ h₁ => ?_
        -- the cell was there before, and only an assignment may write it
        exact (h₁.emit_copy (.inr (h rfl))).reaches
      · exact Wrote.start.reaches
    · have hleft : assigns left = true → assigning = true := fun hl => h (by simp [assigns, hl])
      by_cases hlogic : op = "and" ∨ op = "or"
      · obtain ⟨hrightStem, hskipStem, hendStem⟩ := mem_stems_of_logic hlogic
        simp only [lower_logic hlogic, mergeLogic, leads_bind, leads_mintLabel, leads_emit,
          leads_mint, leads_pure]
        refine leads_behind .start (writes_lower left hleft) fun v _ _ d₁ h₁ => ?_
        refine leads_behind (((((h₁.mintLabel hrightStem).mintLabel hskipStem).mintLabel
          hendStem).emit_logicBranch (by simp) (by simp)).mint.emit_label (by simp))
          (writes_lower right hright) fun w _ _ d₂ h₂ => ?_
        -- both copies go to the result, which was minted in front of the right side
        exact ((((((h₂.emit_copy (.inl (by simp))).emit_jump (by simp)).emit_label
          (by simp)).emitNew rfl rfl).emit_copy (.inl (by simp))).emit_label (by simp)).reaches
      · simp only [lower_operation hassign hlogic, leads_bind, leads_call]
        refine leads_behind_lookup .start fun callee => ?_
        refine leads_behind .start (writes_lower left hleft) fun v _ _ d₁ h₁ => ?_
        refine leads_behind h₁ (writes_settle _ _ _) fun v' _ _ d₂ h₂ => ?_
        refine leads_behind h₂ (writes_lower right hright) fun w _ _ d₃ h₃ => ?_
        exact (h₃.emitNew rfl rfl).reaches
  | .ifThen loc condition thenBranch, h => fun d => by
    simp only [lower, leads_bind, leads_mintLabel, leads_emit, leads_pure]
    refine leads_behind .start (writes_lower condition fun hc => h (by simp [assigns, hc]))
      fun v _ _ d₁ h₁ => ?_
    refine leads_behind ((((h₁.mintLabel mem_stems_then).mintLabel mem_stems_ifEnd).emit_branch
      (by simp) (by simp)).emit_label (by simp))
      (writes_lower thenBranch fun ht => h (by simp [assigns, ht])) fun _ _ _ d₂ h₂ => ?_
    exact (h₂.emit_label (by simp)).reaches
  | .ifElse loc condition thenBranch elseBranch, h => fun d => by
    simp only [lower, leads_bind, leads_mintLabel, leads_emit]
    refine leads_behind .start (writes_lower condition fun hc => h (by simp [assigns, hc]))
      fun v _ _ d₁ h₁ => ?_
    refine leads_behind (((((h₁.mintLabel mem_stems_then).mintLabel mem_stems_else).mintLabel
      mem_stems_ifEnd).emit_branch (by simp) (by simp)).emit_label (by simp))
      (writes_lower thenBranch fun ht => h (by simp [assigns, ht])) fun thenVar _ _ d₂ h₂ => ?_
    have helse : Writes assigning (lower elseBranch) :=
      writes_lower elseBranch fun he => h (by simp [assigns, he])
    split
    · simp only [leads_bind, leads_emit, leads_pure]
      exact leads_behind ((h₂.emit_jump (by simp)).emit_label (by simp)) helse
        fun _ _ _ d₃ h₃ => (h₃.emit_label (by simp)).reaches
    · simp only [leads_bind, leads_mint, leads_emit, leads_pure]
      refine leads_behind (((h₂.emitNew rfl rfl).emit_jump (by simp)).emit_label (by simp)) helse
        fun elseVar _ _ d₃ h₃ => ?_
      exact ((h₃.emit_copy (.inl (by simp))).emit_label (by simp)).reaches
  | .call loc function arguments, h => fun d => by
    simp only [lower, leads_bind, leads_call]
    refine leads_behind .start (writes_lower function fun hf => h (by simp [assigns, hf]))
      fun callee _ _ d₁ h₁ => ?_
    refine leads_behind h₁ (writes_settle _ _ _) fun callee' _ _ d₂ h₂ => ?_
    refine leads_behind h₂ (writes_lowerArguments arguments fun ha => h (by simp [assigns, ha]))
      fun vs _ _ d₃ h₃ => ?_
    exact (h₃.emitNew rfl rfl).reaches
  | .var loc n value, h => fun d => by
    simp only [lower, leads_bind, leads_mint, leads_emit, leads_declare, leads_pure]
    refine leads_behind .start (writes_lower value h) fun v _ _ d₁ h₁ => ?_
    exact (h₁.emitNew rfl rfl).rescope.reaches
  | .block loc statements, h => fun d => by
    rw [lower, inScope, leads_within]
    exact (writes_lowerStatements .unit statements h d.push).mono
      (fun _ _ ⟨_, _, h'⟩ => (Wrote.start.rescope.trans h').rescope.reaches)
      fun _ _ ⟨_, _, h'⟩ => (Wrote.start.rescope.trans h').rescope.reaches

/-- Operands are lowered and settled one after the other. -/
theorem writes_lowerArguments : (es : List Expr) → (assignsAny es = true → assigning = true) →
    Writes assigning (lowerArguments es)
  | [], _ => fun d => Wrote.start.reaches
  | e :: rest, h => fun d => by
    simp only [lowerArguments, leads_bind, leads_pure]
    refine leads_behind .start (writes_lower e fun he => h (by simp [assignsAny, he]))
      fun v _ _ d₁ h₁ => ?_
    refine leads_behind h₁ (writes_settle _ _ _) fun v' _ _ d₂ h₂ => ?_
    exact leads_behind h₂ (writes_lowerArguments rest fun hr => h (by simp [assignsAny, hr]))
      fun vs _ _ d₃ h₃ => h₃.reaches

/-- Statements are lowered one after the other. -/
theorem writes_lowerStatements (last : Var) : (es : List Expr) →
    (assignsAny es = true → assigning = true) → Writes assigning (lowerStatements last es)
  | [], _ => fun d => Wrote.start.reaches
  | e :: rest, h => fun d => by
    simp only [lowerStatements, leads_bind]
    refine leads_behind .start (writes_lower e fun he => h (by simp [assignsAny, he]))
      fun v _ _ d₁ h₁ => ?_
    exact leads_behind h₁ (writes_lowerStatements v rest fun hr => h (by simp [assignsAny, hr]))
      fun _ _ _ d₂ h₂ => h₂.reaches

end

end Lowering

end ExprLang
