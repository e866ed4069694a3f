/-
  LABEL DISCIPLINE: how labels are handed out, jumped to and placed.

  A label ends in its number, and numbers are handed out in order, so no two labels are equal
  whatever their stems are.  Between being handed out and being placed a label is PENDING.
  `Labelled pending d` says that the code of `d` may be completed by placing the pending labels:
  each label stands in the code at most once, and every jump goes to a pending label or to one
  that is placed further on in the code.

  A construct hands out its labels, keeps them pending while its parts are written, and places
  them in the same order; `labelled_of_lowers` is the induction over all constructs.
-/
import ExprLang.Code.Validity
import ExprLang.Proofs.DraftInvariants

namespace ExprLang

/-! ## The number of a label -/

/-- The number that a label ends in. -/
def Label.number (l : Label) : Nat :=
  Nat.ofDigitChars 10 (l.name.toList.reverse.takeWhile Char.isDigit).reverse 0

/-- A text that does not end in a digit, so that a number behind it can be told apart. -/
def Label.IsStem (stem : String) : Prop := stem.toList.reverse.head?.any Char.isDigit = false

instance (stem : String) : Decidable (Label.IsStem stem) := inferInstanceAs (Decidable (_ = false))

/-- The stem has no digits at its end, so the number of a label can be read off. -/
theorem Label.number_numbered {stem : String} (hstem : Label.IsStem stem) (k : Nat) :
    (Label.numbered stem k).number = k := by
  have hdigits : ∀ c ∈ (Nat.toDigits 10 k).reverse, c.isDigit = true := fun c hc =>
    Nat.isDigit_of_mem_toDigits (by decide) (by decide) (List.mem_reverse.1 hc)
  have hbehind : stem.toList.reverse.takeWhile Char.isDigit = [] := by
    rcases hrev : stem.toList.reverse with _ | ⟨c, rest⟩
    · rfl
    · have hc : c.isDigit = false := by
        rw [IsStem, hrev] at hstem
        exact hstem
      rw [List.takeWhile_cons_of_neg (by simp [hc])]
  simp only [number, numbered, String.toList_append, Nat.toString_eq_ofList_toDigits,
    String.toList_ofList, List.reverse_append, List.takeWhile_append_of_pos hdigits, hbehind,
    List.append_nil, List.reverse_reverse]
  simp

/-- This and the next ones are the stems that lowering uses. -/
theorem Label.isStem_then : Label.IsStem "then" := by decide

theorem Label.isStem_else : Label.IsStem "else" := by decide

theorem Label.isStem_ifEnd : Label.IsStem "if_end" := by decide

/-! ## Pending and placed labels -/

namespace Draft

/-- The labels that the code places. -/
def placed (d : Draft) : List Label := Validity.definedLabels d.code.toList

/-- Every label stands in one place, now or later, and every jump leads forward. -/
structure Labelled (pending : List Label) (d : Draft) : Prop where
  nodup : (pending ++ d.placed).Nodup
  counted : ∀ l ∈ pending ++ d.placed, l.number ≤ d.labels
  forward : ∀ k i, d.code.toList[k]? = some i → ∀ t ∈ i.targets,
    t ∈ pending ∨ t ∈ Validity.definedLabels (d.code.toList.drop (k + 1))

/-- An empty draft has no labels. -/
theorem labelled_start (reserved : List String) : (start reserved).Labelled [] where
  nodup := List.nodup_nil
  counted l hl := by simp [placed, start, Validity.definedLabels] at hl
  forward k i hi := by simp [start] at hi

namespace Labelled

variable {pending : List Label} {d : Draft} {action : Action} {loc : Location}

/-- The order in which labels wait for their place does not matter. -/
theorem perm {other : List Label} (h : d.Labelled pending) (hperm : pending.Perm other) :
    d.Labelled other where
  nodup := (hperm.append_right d.placed).nodup_iff.1 h.nodup
  counted l hl := h.counted l ((hperm.append_right d.placed).mem_iff.2 hl)
  forward k i hi t ht := (h.forward k i hi t ht).imp_left hperm.mem_iff.1

/-- A label that was handed out is pending. -/
theorem mint (h : d.Labelled pending) {stem : String} (hstem : Label.IsStem stem) :
    (d.withLabels 1).Labelled (.numbered stem (d.labels + 1) :: pending) where
  nodup := by
    rw [List.cons_append, List.nodup_cons]
    refine ⟨fun hmem => ?_, h.nodup⟩
    have hle := h.counted _ hmem
    rw [Label.number_numbered hstem] at hle
    omega
  counted l hl := by
    rw [labels_withLabels]
    rw [List.cons_append, List.mem_cons] at hl
    rcases hl with rfl | hl
    · exact Nat.le_of_eq (Label.number_numbered hstem _)
    · exact Nat.le_succ_of_le (h.counted l hl)
  forward k i hi t ht := (h.forward k i hi t ht).imp_left (List.mem_cons_of_mem _)

/-- Two labels are pending in the order in which they were handed out. -/
theorem mint_two (h : d.Labelled pending) {stem stem' : String} (hstem : Label.IsStem stem)
    (hstem' : Label.IsStem stem') :
    (d.withLabels 2).Labelled
      (.numbered stem (d.labels + 1) :: .numbered stem' (d.labels + 2) :: pending) := by
  have htwo := (h.mint hstem).mint hstem'
  rw [withLabels_withLabels] at htwo
  exact htwo.perm (List.Perm.swap _ _ _)

/-- Three labels are minted for a conditional with an else-branch, and for a logical operator. -/
theorem mint_three (h : d.Labelled pending) {stem stem' stem'' : String}
    (hstem : Label.IsStem stem) (hstem' : Label.IsStem stem') (hstem'' : Label.IsStem stem'') :
    (d.withLabels 3).Labelled (.numbered stem (d.labels + 1) ::
      .numbered stem' (d.labels + 2) :: .numbered stem'' (d.labels + 3) :: pending) := by
  have hthree := (h.mint_two hstem hstem').mint hstem''
  rw [withLabels_withLabels] at hthree
  exact hthree.perm ((List.Perm.swap _ _ _).trans ((List.Perm.swap _ _ _).cons _))

/-- An instruction that places no label may jump to pending ones. -/
theorem emit (h : d.Labelled pending) (hdefines : (⟨action, loc⟩ : Instr).defines = none)
    (htargets : ∀ t ∈ (⟨action, loc⟩ : Instr).targets, t ∈ pending) :
    (d.emit action loc).Labelled pending := by
  have hplaced : (d.emit action loc).placed = d.placed := by
    rw [placed, code_emit, Validity.definedLabels, List.filterMap_append]
    simp [hdefines, placed, Validity.definedLabels]
  refine ⟨by rw [hplaced]; exact h.nodup, by rw [hplaced]; exact h.counted, ?_⟩
  intro k i hi t ht
  rw [code_emit] at hi ⊢
  rcases Nat.lt_or_ge k d.code.toList.length with hlt | hge
  · rw [List.getElem?_append_left hlt] at hi
    rw [List.drop_append_of_le_length hlt]
    refine (h.forward k i hi t ht).imp_right ?_
    intro hmem
    rw [Validity.definedLabels, List.filterMap_append]
    exact List.mem_append_left _ hmem
  · rw [List.getElem?_append_right hge] at hi
    obtain rfl := List.mem_singleton.1 (List.mem_of_getElem? hi)
    exact .inl (htargets t ht)

/-- The first pending label may be placed. -/
theorem place {l : Label} (h : d.Labelled (l :: pending)) :
    (d.emit (.label l) loc).Labelled pending := by
  have hplaced : (d.emit (.label l) loc).placed = d.placed ++ [l] := by
    rw [placed, code_emit, Validity.definedLabels, List.filterMap_append]
    rfl
  have hperm : (pending ++ (d.placed ++ [l])).Perm ((l :: pending) ++ d.placed) := by
    rw [← List.append_assoc]
    exact List.perm_append_singleton l _
  refine ⟨by rw [hplaced]; exact hperm.nodup_iff.2 h.nodup, ?_, ?_⟩
  · intro l' hl'
    rw [hplaced] at hl'
    exact h.counted l' (hperm.mem_iff.1 hl')
  · intro k i hi t ht
    rw [code_emit] at hi ⊢
    rcases Nat.lt_or_ge k d.code.toList.length with hlt | hge
    · rw [List.getElem?_append_left hlt] at hi
      rw [List.drop_append_of_le_length hlt, Validity.definedLabels, List.filterMap_append]
      rcases h.forward k i hi t ht with hpending | hmem
      · rcases List.mem_cons.1 hpending with rfl | hpending
        · -- a jump to the label that is placed here
          exact .inr (List.mem_append_right _ (List.mem_singleton.2 rfl))
        · exact .inl hpending
      · exact .inr (List.mem_append_left _ hmem)
    · rw [List.getElem?_append_right hge] at hi
      obtain rfl := List.mem_singleton.1 (List.mem_of_getElem? hi)
      simp [Instr.targets] at ht

/-- A copy neither places a label nor jumps. -/
theorem emit_copy (h : d.Labelled pending) (x y : Var) :
    (d.emit (.copy x y) loc).Labelled pending := by
  refine h.emit rfl ?_
  intro t ht
  exact absurd ht List.not_mem_nil

/-- A jump goes to a label that still waits for its place, so it goes forward. -/
theorem emit_jump (h : d.Labelled pending) {l : Label} (hl : l ∈ pending) :
    (d.emit (.jump l) loc).Labelled pending := by
  refine h.emit rfl ?_
  intro t ht
  obtain rfl := List.mem_singleton.1 ht
  exact hl

/-- A branch goes forward for the same reason, both ways. -/
theorem emit_branch (h : d.Labelled pending) {x : Var} {l l' : Label} (hl : l ∈ pending)
    (hl' : l' ∈ pending) : (d.emit (.branch x l l') loc).Labelled pending := by
  refine h.emit rfl ?_
  intro t ht
  rcases List.mem_cons.1 ht with rfl | ht
  · exact hl
  · obtain rfl := List.mem_singleton.1 ht
    exact hl'

/-- The branch of a logical operator is a branch with its labels in one order or the other. -/
theorem emit_logicBranch (h : d.Labelled pending) {op : String} {x : Var} {l l' : Label}
    (hl : l ∈ pending) (hl' : l' ∈ pending) :
    (d.emit (Lowering.logicBranch op x l l') loc).Labelled pending := by
  unfold Lowering.logicBranch
  split
  · exact h.emit_branch hl' hl
  · exact h.emit_branch hl hl'

/-- Variables have nothing to do with labels. -/
theorem grown (h : d.Labelled pending) : d.grown.Labelled pending :=
  ⟨h.nodup, h.counted, h.forward⟩

/-- An instruction for a new variable is no label and no jump. -/
theorem emitNew (h : d.Labelled pending) {action : Var → Action}
    (hdefines : (⟨action d.next, loc⟩ : Instr).defines = none)
    (htargets : (⟨action d.next, loc⟩ : Instr).targets = []) :
    (d.emitNew action loc).Labelled pending :=
  h.grown.emit hdefines (by simp [htargets])

/-- Scopes have nothing to do with labels. -/
theorem declare (h : d.Labelled pending) (n : String) (x : Var) :
    (d.declare n x).Labelled pending :=
  ⟨h.nodup, h.counted, h.forward⟩

/-- Nor has entering a scope. -/
theorem push (h : d.Labelled pending) : d.push.Labelled pending :=
  ⟨h.nodup, h.counted, h.forward⟩

/-- Nor has leaving one. -/
theorem pop (h : d.Labelled pending) : d.pop.Labelled pending :=
  ⟨h.nodup, h.counted, h.forward⟩

end Labelled

end Draft

/-! ## The code of an expression -/

namespace Lowering

open Draft

variable {pending : List Label}

/-- Settling an operand adds a copy at most. -/
theorem labelled_of_settles {x y : Var} {overwritten : Bool} {loc : Location} {d d' : Draft}
    (hsettle : Settles x overwritten loc d y d') (h : d.Labelled pending) :
    d'.Labelled pending := by
  cases hsettle with
  | keep => exact h
  | copy => exact h.emitNew rfl rfl

mutual

/-- The code of an expression places the labels that it hands out, and no other. -/
theorem labelled_of_lowers {pending : List Label} {e : Expr} {d d' : Draft} {x : Var} :
    Lowers e d x d' → d.Labelled pending → d'.Labelled pending
  | .int, h => h.emitNew rfl rfl
  | .bool, h => h.emitNew rfl rfl
  | .unit, h => h
  | .name _, h => h
  | .unary _ hoperand, h => (labelled_of_lowers hoperand h).emitNew rfl rfl
  | .assign _ hright, h => (labelled_of_lowers hright h).emit_copy _ _
  | @Lowers.logic _ d₁ _ d₃ _ op _ _ _ _ _ _ _ hop hleft hrightLabel hskipLabel hendLabel hright
      hmerge, h => by
    -- the stems of the labels begin with the operator, which is `and` or `or`
    have hstems : Label.IsStem (op ++ "_right") ∧ Label.IsStem (op ++ "_skip") ∧
        Label.IsStem (op ++ "_end") := by
      rcases hop with rfl | rfl <;> decide
    subst hrightLabel hskipLabel hendLabel
    have h₁ := (labelled_of_lowers hleft h).mint_three hstems.1 hstems.2.1 hstems.2.2
    have h₂ := labelled_of_lowers hright (h₁.emit_logicBranch List.mem_cons_self
      (List.mem_cons_of_mem _ List.mem_cons_self)).grown.place
    have h₃ : d₃.Labelled (.numbered (op ++ "_end") (d₁.labels + 3) :: pending) := by
      rw [hmerge]
      exact ((h₂.emit_copy _ _).emit_jump (List.mem_cons_of_mem _ List.mem_cons_self)).place
    exact ((h₃.emitNew rfl rfl).emit_copy _ _).place
  | .operation _ _ _ hleft hsettle hright, h =>
    (labelled_of_lowers hright
      (labelled_of_settles hsettle (labelled_of_lowers hleft h))).emitNew rfl rfl
  | .ifThen hcondition hthenLabel hendLabel hthen, h => by
    subst hthenLabel hendLabel
    have h₁ := (labelled_of_lowers hcondition h).mint_two Label.isStem_then Label.isStem_ifEnd
    have h₂ := labelled_of_lowers hthen
      (h₁.emit_branch List.mem_cons_self (List.mem_cons_of_mem _ List.mem_cons_self)).place
    exact h₂.place
  | .ifElseUnit hcondition hthenLabel helseLabel hendLabel hthen helse, h => by
    subst hthenLabel helseLabel hendLabel
    have h₁ := (labelled_of_lowers hcondition h).mint_three Label.isStem_then Label.isStem_else
      Label.isStem_ifEnd
    have h₂ := labelled_of_lowers hthen
      (h₁.emit_branch List.mem_cons_self (List.mem_cons_of_mem _ List.mem_cons_self)).place
    have h₃ := labelled_of_lowers helse
      (h₂.emit_jump (List.mem_cons_of_mem _ List.mem_cons_self)).place
    exact h₃.place
  | .ifElse hcondition hthenLabel helseLabel hendLabel hthen _ helse, h => by
    subst hthenLabel helseLabel hendLabel
    have h₁ := (labelled_of_lowers hcondition h).mint_three Label.isStem_then Label.isStem_else
      Label.isStem_ifEnd
    have h₂ := labelled_of_lowers hthen
      (h₁.emit_branch List.mem_cons_self (List.mem_cons_of_mem _ List.mem_cons_self)).place
    have h₃ := labelled_of_lowers helse
      ((h₂.emitNew rfl rfl).emit_jump (List.mem_cons_of_mem _ List.mem_cons_self)).place
    exact (h₃.emit_copy _ _).place
  | .call hfunction hsettle harguments, h =>
    (labelled_of_lowersAll harguments
      (labelled_of_settles hsettle (labelled_of_lowers hfunction h))).emitNew rfl rfl
  | .var hvalue, h => by
    exact ((labelled_of_lowers hvalue h).emitNew rfl rfl).declare _ _
  | .block hbody, h => by
    exact (labelled_of_lowersBody hbody h.push).pop

/-- Operands follow one another, so their labels do. -/
theorem labelled_of_lowersAll {pending : List Label} {es : List Expr} {d d' : Draft}
    {xs : List Var} : LowersAll es d xs d' → d.Labelled pending → d'.Labelled pending
  | .nil, h => h
  | .cons hfirst hsettle hrest, h =>
    labelled_of_lowersAll hrest (labelled_of_settles hsettle (labelled_of_lowers hfirst h))

/-- So do the statements of a block. -/
theorem labelled_of_lowersBody {pending : List Label} {es : List Expr} {d d' : Draft}
    {last x : Var} : LowersBody last es d x d' → d.Labelled pending → d'.Labelled pending
  | .nil, h => h
  | .cons hfirst hrest, h => labelled_of_lowersBody hrest (labelled_of_lowers hfirst h)

end

end Lowering

end ExprLang
