/-
  DRAFT INVARIANTS: what is true of code at every moment of its being written.

  A variable is KNOWN to a draft when it is reserved or has been minted, and AVAILABLE when it is
  reserved or the code writes it.  A draft is `Tidy` when all variables fit together: the code
  reads what is available, loads and calls write what is new, and each name in scope has a
  variable to itself.

  `Extends` says how a draft may change: the code grows at its end, and whatever variables come
  to be bound or declared were not known before.  Each step of a draft keeps it tidy and extends
  it, and by induction on the rules of lowering so does the code of every expression
  (`tidy_of_lowers`), whether or not a program could ever contain it.
-/
import ExprLang.Proofs.LoweringRules
import ExprLang.Proofs.ScopeLevels

namespace ExprLang

namespace Draft

/-! ## Known and available variables -/

/-- The variables that the code writes, in its order. -/
def written (d : Draft) : List Var := d.code.toList.filterMap Instr.writes

/-- Whether a variable is reserved or has been minted. -/
def Known (d : Draft) (x : Var) : Prop :=
  x.name ∈ d.reserved ∨ ∃ k, k ≤ d.minted ∧ x = .numbered k

/-- Whether a variable may be read. -/
def Available (d : Draft) (x : Var) : Prop := x.name ∈ d.reserved ∨ x ∈ d.written

section

variable {d : Draft} {x : Var} {action : Action} {loc : Location}

/-- The number of the next variable is the first one behind the last whose name is free. -/
@[simp] theorem minted_grown (d : Draft) :
    d.grown.minted = firstFree d.reserved (d.minted + 1) := rfl

/-- Numbers only go up. -/
theorem minted_lt_grown (d : Draft) : d.minted < d.grown.minted :=
  le_firstFree d.reserved (d.minted + 1)

/-- A new variable was not known. -/
theorem not_known_next (d : Draft) : ¬d.Known d.next := by
  rintro (hreserved | ⟨k, hk, heq⟩)
  · exact (firstFree_spec d.reserved (d.minted + 1)).1 hreserved
  · have hlt := d.minted_lt_grown
    have := Var.numbered_injective heq
    rw [minted_grown] at hlt
    omega

/-- It was looked for among the names that are not reserved. -/
theorem next_not_reserved (d : Draft) : d.next.name ∉ d.reserved :=
  fun h => d.not_known_next (.inl h)

/-- What has been minted is known. -/
theorem known_next_grown (d : Draft) : d.grown.Known d.next :=
  .inr ⟨_, Nat.le_refl _, rfl⟩

/-- Instructions are written at the end. -/
@[simp] theorem code_emit (d : Draft) (action : Action) (loc : Location) :
    (d.emit action loc).code.toList = d.code.toList ++ [⟨action, loc⟩] := by
  simp only [emit, Array.toList_push]

/-- The variable that an instruction writes is written last. -/
@[simp] theorem written_emit (d : Draft) (action : Action) (loc : Location) :
    (d.emit action loc).written = d.written ++ ((⟨action, loc⟩ : Instr).writes).toList := by
  rw [written, code_emit, List.filterMap_append, ← written]
  rcases hwrites : (⟨action, loc⟩ : Instr).writes with _ | x <;> simp [hwrites]

/-- What an instruction writes may be read behind it. -/
theorem available_of_writes (h : (⟨action, loc⟩ : Instr).writes = some x) :
    (d.emit action loc).Available x := by
  refine .inr ?_
  rw [written_emit, h]
  simp

end

/-! ## Tidy drafts -/

/-- Code reads what is reserved or written earlier; what is no copy writes a variable that is
    neither. -/
def Ordered (reserved : List String) (code : List Instr) : Prop :=
  ∀ k i, code[k]? = some i →
    (∀ x ∈ i.reads, x.name ∈ reserved ∨ x ∈ (code.take k).filterMap Instr.writes) ∧
    ∀ x, i.writes = some x → i.isCopy = false →
      x.name ∉ reserved ∧ x ∉ (code.take k).filterMap Instr.writes

/-- All variables of a draft fit together. -/
structure Tidy (d : Draft) : Prop where
  unit : unitName ∈ d.reserved
  written : ∀ x ∈ d.written, d.Known x
  bound : ∀ l n x, d.scopes.binding l n = some x → d.Available x
  owned : ∀ l n x, d.scopes.binding l n = some x → x.name ∈ d.reserved ∨ x ∈ d.declared
  distinct : ∀ l n l' n' x, d.scopes.binding l n = some x → d.scopes.binding l' n' = some x →
    l = l' ∧ n = n'
  declared : ∀ x ∈ d.declared, d.Known x ∧ x.name ∉ d.reserved
  ordered : Ordered d.reserved d.code.toList

/-- One draft is a later state of another. -/
structure Extends (d d' : Draft) : Prop where
  reserved : d'.reserved = d.reserved
  minted : d.minted ≤ d'.minted
  labels : d.labels ≤ d'.labels
  code : d.code.toList <+: d'.code.toList
  declared : ∀ x, d.Known x → (x ∈ d'.declared ↔ x ∈ d.declared)
  scopes : ∀ l n x, d'.scopes.binding l n = some x → d.Known x → d.scopes.binding l n = some x

/-- Before anything is written, every reserved name has the variable of that name. -/
theorem binding_start {reserved : List String} {l : Nat} {n : String} {x : Var} :
    (start reserved).scopes.binding l n = some x ↔ l = 0 ∧ n ∈ reserved ∧ x = ⟨n⟩ := by
  rcases Nat.eq_zero_or_pos l with rfl | hpos
  · have hmem (m : String) (y : Var) :
        (m, y) ∈ reserved.map (fun n => (n, (⟨n⟩ : Var))) ↔ m ∈ reserved ∧ y = ⟨m⟩ := by
      simp only [List.mem_map, Prod.mk.injEq]
      constructor
      · rintro ⟨_, hm, rfl, rfl⟩
        exact ⟨hm, rfl⟩
      · rintro ⟨hm, rfl⟩
        exact ⟨m, hm, rfl, rfl⟩
    rw [start, Scopes.binding_ofList, hmem]
    · exact (and_iff_right rfl).symm
    · intro m y z hy hz
      rw [((hmem m y).1 hy).2, ((hmem m z).1 hz).2]
  · rw [Scopes.binding_of_depth_lt (by rwa [start, Scopes.depth_ofList])]
    simp only [reduceCtorEq, false_iff, not_and]
    omega

/-- An empty draft has only reserved variables, and nothing in scope but them. -/
theorem tidy_start (reserved : List String) : (start reserved).Tidy where
  unit := List.mem_cons_self
  written x hx := by simp [written, start] at hx
  bound l n x hbound := by
    obtain ⟨-, hn, rfl⟩ := binding_start.1 hbound
    exact .inl (List.mem_cons_of_mem _ hn)
  owned l n x hbound := by
    obtain ⟨-, hn, rfl⟩ := binding_start.1 hbound
    exact .inl (List.mem_cons_of_mem _ hn)
  distinct l n l' n' x hbound hbound' := by
    obtain ⟨rfl, -, rfl⟩ := binding_start.1 hbound
    obtain ⟨rfl, -, heq⟩ := binding_start.1 hbound'
    exact ⟨rfl, Var.mk.inj heq⟩
  declared x hx := by simp [start] at hx
  ordered k i hi := by simp [start] at hi

namespace Extends

variable {d d' d'' : Draft} {x : Var}

/-- Nothing is forgotten while the code grows. -/
theorem known (h : d.Extends d') (hx : d.Known x) : d'.Known x := by
  rcases hx with hreserved | ⟨k, hk, rfl⟩
  · exact .inl (h.reserved ▸ hreserved)
  · exact .inr ⟨k, Nat.le_trans hk h.minted, rfl⟩

/-- What may be read may be read later on. -/
theorem available (h : d.Extends d') (hx : d.Available x) : d'.Available x := by
  rcases hx with hreserved | hwritten
  · exact .inl (h.reserved ▸ hreserved)
  · exact .inr ((h.code.filterMap Instr.writes).subset hwritten)

/-- A draft extends itself. -/
theorem refl (d : Draft) : d.Extends d where
  reserved := rfl
  minted := Nat.le_refl _
  labels := Nat.le_refl _
  code := List.prefix_refl _
  declared _ _ := Iff.rfl
  scopes _ _ _ hbound _ := hbound

/-- Extensions follow one another: what is new to the later one was not known to the earlier one
    either. -/
theorem trans (h : d.Extends d') (h' : d'.Extends d'') : d.Extends d'' where
  reserved := h'.reserved.trans h.reserved
  minted := Nat.le_trans h.minted h'.minted
  labels := Nat.le_trans h.labels h'.labels
  code := h.code.trans h'.code
  declared x hx := (h'.declared x (h.known hx)).trans (h.declared x hx)
  scopes l n x hbound hx := h.scopes l n x (h'.scopes l n x hbound (h.known hx)) hx

end Extends

/-! ## Each step -/

section

variable {d d' : Draft} {x : Var} {action : Action} {loc : Location}

/-- The variables that tidy code writes, binds and declares are known. -/
theorem Tidy.known_of_available (h : d.Tidy) (hx : d.Available x) : d.Known x := by
  rcases hx with hreserved | hwritten
  · exact .inl hreserved
  · exact h.written x hwritten

/-- The unit variable is reserved. -/
theorem Tidy.available_unit (h : d.Tidy) : d.Available .unit := .inl h.unit

/-- The variable of a name in scope can be read. -/
theorem Tidy.available_of_lookup (h : d.Tidy) {n : String} (hlookup : d.scopes.lookup n = some x) :
    d.Available x := by
  obtain ⟨l, -, hbinding⟩ := Scopes.lookup_eq_some_iff.1 hlookup
  exact h.bound l n x hbinding

/-- Writing an instruction extends a draft, whatever it says. -/
theorem extends_emit (d : Draft) (action : Action) (loc : Location) :
    d.Extends (d.emit action loc) where
  reserved := rfl
  minted := Nat.le_refl _
  labels := Nat.le_refl _
  code := by
    rw [code_emit]
    exact List.prefix_append _ _
  declared _ _ := Iff.rfl
  scopes _ _ _ hbound _ := hbound

/-- One more instruction keeps the order when it fits what is there. -/
theorem Ordered.append {reserved : List String} {code : List Instr} {i : Instr}
    (h : Ordered reserved code)
    (hreads : ∀ x ∈ i.reads, x.name ∈ reserved ∨ x ∈ code.filterMap Instr.writes)
    (hwrites : ∀ x, i.writes = some x → i.isCopy = false →
      x.name ∉ reserved ∧ x ∉ code.filterMap Instr.writes) :
    Ordered reserved (code ++ [i]) := by
  intro k j hj
  rcases Nat.lt_trichotomy k code.length with hlt | heq | hgt
  · rw [List.getElem?_append_left hlt] at hj
    rw [List.take_append_of_le_length (Nat.le_of_lt hlt)]
    exact h k j hj
  · subst heq
    simp only [List.getElem?_concat_length, Option.some.injEq] at hj
    subst hj
    rw [List.take_left]
    exact ⟨hreads, hwrites⟩
  · have hlength : (code ++ [i]).length ≤ k := by
      rw [List.length_append, List.length_singleton]
      exact hgt
    rw [List.getElem?_eq_none hlength] at hj
    contradiction

/-- An instruction may be written that reads what is available, and writes a known variable: a
    new one unless it is a copy. -/
theorem Tidy.emit (h : d.Tidy)
    (hreads : ∀ x ∈ (⟨action, loc⟩ : Instr).reads, d.Available x)
    (hwrites : ∀ x, (⟨action, loc⟩ : Instr).writes = some x → d.Known x)
    (hnew : ∀ x, (⟨action, loc⟩ : Instr).writes = some x →
      (⟨action, loc⟩ : Instr).isCopy = false → ¬d.Available x) :
    (d.emit action loc).Tidy where
  unit := h.unit
  written x hx := by
    rw [written_emit, List.mem_append, Option.mem_toList] at hx
    rcases hx with hx | hx
    · exact h.written x hx
    · exact hwrites x hx
  bound l n x hbound := (extends_emit d action loc).available (h.bound l n x hbound)
  owned := h.owned
  distinct := h.distinct
  declared := h.declared
  ordered := by
    rw [code_emit]
    refine h.ordered.append hreads ?_
    intro x hx hcopy
    have hunavailable := hnew x hx hcopy
    exact ⟨fun hr => hunavailable (.inl hr), fun hw => hunavailable (.inr hw)⟩

/-- Minting a variable does. -/
theorem extends_grown (d : Draft) : d.Extends d.grown where
  reserved := rfl
  minted := Nat.le_of_lt d.minted_lt_grown
  labels := Nat.le_refl _
  code := List.prefix_refl _
  declared _ _ := Iff.rfl
  scopes _ _ _ hbound _ := hbound

/-- A variable that nothing uses yet disturbs nothing. -/
theorem Tidy.grown (h : d.Tidy) : d.grown.Tidy where
  unit := h.unit
  written x hx := d.extends_grown.known (h.written x hx)
  bound := h.bound
  owned := h.owned
  distinct := h.distinct
  declared x hx := ⟨d.extends_grown.known (h.declared x hx).1, (h.declared x hx).2⟩
  ordered := h.ordered

/-- A new variable has not been written. -/
theorem Tidy.not_available_next (h : d.Tidy) : ¬d.Available d.next :=
  fun hx => d.not_known_next (h.known_of_available hx)

/-- No name is bound to a new variable. -/
theorem Tidy.unbound_next (h : d.Tidy) (l : Nat) (n : String) :
    d.scopes.binding l n ≠ some d.next := fun hbound =>
  h.not_available_next (h.bound l n _ hbound)

/-- Minting labels does not touch variables. -/
theorem extends_withLabels (d : Draft) (count : Nat) : d.Extends (d.withLabels count) where
  reserved := rfl
  minted := Nat.le_refl _
  labels := Nat.le_add_right _ _
  code := List.prefix_refl _
  declared _ _ := Iff.rfl
  scopes _ _ _ hbound _ := hbound

/-- Nor does it touch what the code reads and writes. -/
theorem Tidy.withLabels (h : d.Tidy) (count : Nat) : (d.withLabels count).Tidy where
  unit := h.unit
  written := h.written
  bound := h.bound
  owned := h.owned
  distinct := h.distinct
  declared := h.declared
  ordered := h.ordered

/-- Minting a variable and writing an instruction for it are two extensions. -/
theorem extends_emitNew (d : Draft) (action : Var → Action) (loc : Location) :
    d.Extends (d.emitNew action loc) :=
  d.extends_grown.trans (d.grown.extends_emit _ _)

/-- What is minted for an instruction can be read behind it. -/
theorem available_emitNew {action : Var → Action}
    (hwrites : (⟨action d.next, loc⟩ : Instr).writes = some d.next) :
    (d.emitNew action loc).Available d.next :=
  available_of_writes hwrites

/-- An instruction may be written whose destination is minted for it. -/
theorem Tidy.emitNew (h : d.Tidy) {action : Var → Action}
    (hreads : ∀ x ∈ (⟨action d.next, loc⟩ : Instr).reads, d.Available x)
    (hwrites : (⟨action d.next, loc⟩ : Instr).writes = some d.next) :
    (d.emitNew action loc).Tidy := by
  refine h.grown.emit hreads ?_ ?_
  · intro x hx
    obtain rfl := Option.some.inj (hwrites.symm.trans hx)
    exact d.known_next_grown
  · intro x hx _
    obtain rfl := Option.some.inj (hwrites.symm.trans hx)
    exact h.not_available_next

/-- A construct hands out its labels, branches, and goes on behind the first label. -/
theorem extends_branched (d : Draft) (k : Nat) (action action' : Action) (loc : Location) :
    d.Extends (((d.withLabels k).emit action loc).emit action' loc) :=
  ((d.extends_withLabels k).trans (extends_emit _ _ _)).trans (extends_emit _ _ _)

/-- `and` and `or` also mint the variable of their result. -/
theorem extends_logic (d : Draft) (action action' : Action) (loc : Location) :
    d.Extends (((d.withLabels 3).emit action loc).grown.emit action' loc) :=
  (((d.extends_withLabels 3).trans (extends_emit _ _ _)).trans (extends_grown _)).trans
    (extends_emit _ _ _)

/-- One branch ends with a jump, and the other begins with its label. -/
theorem extends_jumped (d : Draft) (action action' : Action) (loc : Location) :
    d.Extends ((d.emit action loc).emit action' loc) :=
  (extends_emit _ _ _).trans (extends_emit _ _ _)

/-- Entering a scope binds nothing. -/
theorem extends_push (d : Draft) : d.Extends d.push where
  reserved := rfl
  minted := Nat.le_refl _
  labels := Nat.le_refl _
  code := List.prefix_refl _
  declared _ _ := Iff.rfl
  scopes l n _ hbound _ := (Scopes.binding_push d.scopes l n).symm.trans hbound

/-- A new scope has no names that could share a variable. -/
theorem Tidy.push (h : d.Tidy) : d.push.Tidy where
  unit := h.unit
  written := h.written
  bound l n x hbound := h.bound l n x ((Scopes.binding_push d.scopes l n).symm.trans hbound)
  owned l n x hbound := h.owned l n x ((Scopes.binding_push d.scopes l n).symm.trans hbound)
  distinct l n l' n' x hbound hbound' :=
    h.distinct l n l' n' x ((Scopes.binding_push d.scopes l n).symm.trans hbound)
      ((Scopes.binding_push d.scopes l' n').symm.trans hbound')
  declared := h.declared
  ordered := h.ordered

/-- Leaving a scope binds nothing either. -/
theorem extends_pop (d : Draft) : d.Extends d.pop where
  reserved := rfl
  minted := Nat.le_refl _
  labels := Nat.le_refl _
  code := List.prefix_refl _
  declared _ _ := Iff.rfl
  scopes _ _ _ hbound _ := Scopes.binding_of_binding_pop hbound

/-- What is in scope afterwards was in scope before. -/
theorem Tidy.pop (h : d.Tidy) : d.pop.Tidy where
  unit := h.unit
  written := h.written
  bound l n x hbound := h.bound l n x (Scopes.binding_of_binding_pop hbound)
  owned l n x hbound := h.owned l n x (Scopes.binding_of_binding_pop hbound)
  distinct l n l' n' x hbound hbound' :=
    h.distinct l n l' n' x (Scopes.binding_of_binding_pop hbound)
      (Scopes.binding_of_binding_pop hbound')
  declared := h.declared
  ordered := h.ordered

/-- A new variable may be bound to a name once it holds a value. -/
theorem Tidy.declareNew (h : d.Tidy) (hx : d.Available x) (n : String) :
    ((d.emitNew (.copy x) loc).declare n d.next).Tidy := by
  have hcopy : (d.emitNew (.copy x) loc).Tidy :=
    h.emitNew (by simpa [Instr.reads] using hx) rfl
  have hcell : (d.emitNew (.copy x) loc).Available d.next := available_emitNew rfl
  refine ⟨hcopy.unit, hcopy.written, ?_, ?_, ?_, ?_, hcopy.ordered⟩
  · intro l m y hbound
    simp only [declare, Scopes.binding_define] at hbound
    split at hbound
    · obtain rfl := Option.some.inj hbound
      exact hcell
    · exact hcopy.bound l m y hbound
  · intro l m y hbound
    simp only [declare, Scopes.binding_define] at hbound
    split at hbound
    · obtain rfl := Option.some.inj hbound
      exact .inr List.mem_cons_self
    · exact (hcopy.owned l m y hbound).imp id (List.mem_cons_of_mem _)
  · intro l m l' m' y hbound hbound'
    simp only [declare, Scopes.binding_define] at hbound hbound'
    -- two names share the new variable only when they are one name at one level
    split at hbound <;> split at hbound'
    · rename_i hhere hhere'
      exact ⟨hhere.1.trans hhere'.1.symm, hhere.2.symm.trans hhere'.2⟩
    · exact absurd (hbound'.trans hbound.symm) (h.unbound_next l' m')
    · exact absurd (hbound.trans hbound'.symm) (h.unbound_next l m)
    · exact h.distinct l m l' m' y hbound hbound'
  · intro y hy
    rcases List.mem_cons.1 hy with rfl | hy
    · exact ⟨d.known_next_grown, d.next_not_reserved⟩
    · exact hcopy.declared y hy

/-- The variable of a declaration is written by the copy that declares it. -/
theorem available_declareNew {n : String} :
    ((d.emitNew (.copy x) loc).declare n d.next).Available d.next := by
  have hcell : (d.emitNew (.copy x) loc).Available d.next := available_emitNew rfl
  exact hcell

/-- A declaration binds a variable that was not known before. -/
theorem extends_declareNew (d : Draft) (x : Var) (loc : Location) (n : String) :
    d.Extends ((d.emitNew (.copy x) loc).declare n d.next) := by
  have hext := d.extends_emitNew (.copy x) loc
  refine ⟨hext.reserved, hext.minted, hext.labels, hext.code, ?_, ?_⟩
  · intro y hy
    have hne : y ≠ d.next := fun heq => d.not_known_next (heq ▸ hy)
    exact List.mem_cons.trans (or_iff_right hne)
  · intro l m y hbound hy
    simp only [declare, Scopes.binding_define] at hbound
    split at hbound
    · obtain rfl := Option.some.inj hbound
      exact absurd hy d.not_known_next
    · exact hbound

/-! ### Instructions that only direct the way -/

/-- A label reads and writes nothing. -/
theorem Tidy.emit_label (h : d.Tidy) (l : Label) : (d.emit (.label l) loc).Tidy :=
  h.emit (by simp [Instr.reads]) (by simp [Instr.writes]) (by simp [Instr.writes])

/-- Nor does a jump. -/
theorem Tidy.emit_jump (h : d.Tidy) (l : Label) : (d.emit (.jump l) loc).Tidy :=
  h.emit (by simp [Instr.reads]) (by simp [Instr.writes]) (by simp [Instr.writes])

/-- A branch reads its condition. -/
theorem Tidy.emit_branch (h : d.Tidy) (hx : d.Available x) (l l' : Label) :
    (d.emit (.branch x l l') loc).Tidy :=
  h.emit (by simpa [Instr.reads] using hx) (by simp [Instr.writes]) (by simp [Instr.writes])

/-- So does the branch of a logical operator, whichever way round. -/
theorem Tidy.emit_logicBranch (h : d.Tidy) (hx : d.Available x) (op : String) (l l' : Label) :
    (d.emit (Lowering.logicBranch op x l l') loc).Tidy := by
  unfold Lowering.logicBranch
  split
  · exact h.emit_branch hx l' l
  · exact h.emit_branch hx l l'

/-! ### Copies and calls -/

/-- A copy may write any variable that is known, an old one too: assignments and results of branches
    do. -/
theorem Tidy.emit_copy {y : Var} (h : d.Tidy) (hx : d.Available x) (hy : d.Known y) :
    (d.emit (.copy x y) loc).Tidy :=
  h.emit (by simpa [Instr.reads] using hx) (by simpa [Instr.writes] using hy)
    (by simp [Instr.isCopy])

/-- A copy into a new variable is one of these. -/
theorem Tidy.emitNew_copy (h : d.Tidy) (hx : d.Available x) : (d.emitNew (.copy x) loc).Tidy :=
  h.emitNew (by simpa [Instr.reads] using hx) rfl

/-- A call reads its function and its arguments, and writes what is new. -/
theorem Tidy.emitNew_call {xs : List Var} (h : d.Tidy) (hx : d.Available x)
    (hxs : ∀ y ∈ xs, d.Available y) : (d.emitNew (.call x xs) loc).Tidy :=
  h.emitNew (by simpa [Instr.reads] using ⟨hx, hxs⟩) rfl

end

end Draft

/-! ## The code of an expression -/

namespace Lowering

open Draft

/-- A settled operand can be read, and no later assignment overwrites it. -/
theorem tidy_of_settles {x y : Var} {overwritten : Bool} {loc : Location} {d d' : Draft}
    (hsettle : Settles x overwritten loc d y d') (h : d.Tidy) (hx : d.Available x) :
    d'.Tidy ∧ d.Extends d' ∧ d'.Available y := by
  cases hsettle with
  | keep => exact ⟨h, .refl d, hx⟩
  | copy => exact ⟨h.emitNew_copy hx, d.extends_emitNew _ _, available_emitNew rfl⟩

mutual

/-- The code of an expression keeps a draft tidy and makes its value available. -/
theorem tidy_of_lowers {e : Expr} {d d' : Draft} {x : Var} :
    Lowers e d x d' → d.Tidy → d'.Tidy ∧ d.Extends d' ∧ d'.Available x
  | .int, h => by
    exact ⟨h.emitNew (by simp [Instr.reads]) rfl, d.extends_emitNew _ _, available_emitNew rfl⟩
  | .bool, h => by
    exact ⟨h.emitNew (by simp [Instr.reads]) rfl, d.extends_emitNew _ _, available_emitNew rfl⟩
  | .unit, h => ⟨h, .refl d, h.available_unit⟩
  | .name hbound, h => ⟨h, .refl d, h.available_of_lookup hbound⟩
  | .unary hcallee hoperand, h => by
    obtain ⟨h₁, hext, hy⟩ := tidy_of_lowers hoperand h
    have hread := hext.available (h.available_of_lookup hcallee)
    exact ⟨h₁.emitNew_call hread (by simpa using hy), hext.trans (extends_emitNew _ _ _),
      available_emitNew rfl⟩
  | .assign hcell hright, h => by
    obtain ⟨h₁, hext, hy⟩ := tidy_of_lowers hright h
    have hknown := hext.known (h.known_of_available (h.available_of_lookup hcell))
    exact ⟨h₁.emit_copy hy hknown, hext.trans (extends_emit _ _ _), available_of_writes rfl⟩
  | @Lowers.logic _ d₁ d₂ d₃ loc op _ _ _ _ _ _ _ _ hleft _ _ _ hright hmerge, h => by
    obtain ⟨h₁, hext₁, hy⟩ := tidy_of_lowers hleft h
    obtain ⟨h₂, hext₂, hz⟩ :=
      tidy_of_lowers hright ((((h₁.withLabels 3).emit_logicBranch hy _ _ _).grown).emit_label _)
    -- the variable that both ways copy into was minted in front of the right side
    have hresult : d₂.Known d₁.next :=
      hext₂.known ((extends_emit _ _ _).known (known_next_grown _))
    have h₃ : d₃.Tidy := by
      rw [hmerge]
      exact ((h₂.emit_copy hz hresult).emit_jump _).emit_label _
    have hext₃ : d₂.Extends d₃ := by
      rw [hmerge]
      exact (extends_emit _ _ _).trans (extends_jumped _ _ _ _)
    have hext := (hext₁.trans (extends_logic _ _ _ _)).trans hext₂
    have hdecided : (d₃.emitNew (.loadBool (decide (op = "or"))) loc).Tidy :=
      h₃.emitNew (by simp [Instr.reads]) rfl
    have hresult' := (extends_emitNew d₃ (.loadBool (decide (op = "or"))) loc).known
      (hext₃.known hresult)
    exact ⟨(hdecided.emit_copy (available_emitNew rfl) hresult').emit_label _,
      ((hext.trans hext₃).trans (extends_emitNew _ _ _)).trans (extends_jumped _ _ _ _),
      (extends_emit _ _ _).available (available_of_writes rfl)⟩
  | @Lowers.operation _ _ _ d₃ _ _ _ _ _ _ y' z _ _ hcallee hleft hsettle hright, h => by
    obtain ⟨h₁, hext₁, hy⟩ := tidy_of_lowers hleft h
    obtain ⟨h₂, hext₂, hy'⟩ := tidy_of_settles hsettle h₁ hy
    obtain ⟨h₃, hext₃, hz⟩ := tidy_of_lowers hright h₂
    have hext := (hext₁.trans hext₂).trans hext₃
    have hread := hext.available (h.available_of_lookup hcallee)
    have hoperands : ∀ w ∈ [y', z], d₃.Available w := by simpa using ⟨hext₃.available hy', hz⟩
    exact ⟨h₃.emitNew_call hread hoperands, hext.trans (extends_emitNew _ _ _),
      available_emitNew rfl⟩
  | .ifThen hcondition _ _ hthen, h => by
    obtain ⟨h₁, hext₁, hy⟩ := tidy_of_lowers hcondition h
    obtain ⟨h₂, hext₂, -⟩ :=
      tidy_of_lowers hthen (((h₁.withLabels 2).emit_branch hy _ _).emit_label _)
    have hext := (hext₁.trans (extends_branched _ _ _ _ _)).trans hext₂
    exact ⟨h₂.emit_label _, hext.trans (extends_emit _ _ _), (h₂.emit_label _).available_unit⟩
  | .ifElseUnit hcondition _ _ _ hthen helse, h => by
    obtain ⟨h₁, hext₁, hy⟩ := tidy_of_lowers hcondition h
    obtain ⟨h₂, hext₂, -⟩ :=
      tidy_of_lowers hthen (((h₁.withLabels 3).emit_branch hy _ _).emit_label _)
    obtain ⟨h₃, hext₃, -⟩ := tidy_of_lowers helse ((h₂.emit_jump _).emit_label _)
    have hextThen := (hext₁.trans (extends_branched _ _ _ _ _)).trans hext₂
    have hext := (hextThen.trans (extends_jumped _ _ _ _)).trans hext₃
    exact ⟨h₃.emit_label _, hext.trans (extends_emit _ _ _), (h₃.emit_label _).available_unit⟩
  | .ifElse hcondition _ _ _ hthen _ helse, h => by
    obtain ⟨h₁, hext₁, hy⟩ := tidy_of_lowers hcondition h
    obtain ⟨h₂, hext₂, hz⟩ :=
      tidy_of_lowers hthen (((h₁.withLabels 3).emit_branch hy _ _).emit_label _)
    obtain ⟨h₃, hext₃, hw⟩ :=
      tidy_of_lowers helse (((h₂.emitNew_copy hz).emit_jump _).emit_label _)
    have hextThen := (hext₁.trans (extends_branched _ _ _ _ _)).trans hext₂
    have hextElse := ((extends_emitNew _ _ _).trans (extends_jumped _ _ _ _)).trans hext₃
    -- the variable that both branches copy into was minted behind the first one
    have hresult := hext₃.known ((extends_jumped _ _ _ _).known
      ((extends_emit _ _ _).known (known_next_grown _)))
    exact ⟨(h₃.emit_copy hw hresult).emit_label _,
      (hextThen.trans hextElse).trans (extends_jumped _ _ _ _),
      (extends_emit _ _ _).available (available_of_writes rfl)⟩
  | .call hfunction hsettle harguments, h => by
    obtain ⟨h₁, hext₁, hy⟩ := tidy_of_lowers hfunction h
    obtain ⟨h₂, hext₂, hy'⟩ := tidy_of_settles hsettle h₁ hy
    obtain ⟨h₃, hext₃, hxs⟩ := tidy_of_lowersAll harguments h₂
    exact ⟨h₃.emitNew_call (hext₃.available hy') hxs,
      ((hext₁.trans hext₂).trans hext₃).trans (extends_emitNew _ _ _), available_emitNew rfl⟩
  | .var hvalue, h => by
    obtain ⟨h₁, hext, hy⟩ := tidy_of_lowers hvalue h
    exact ⟨h₁.declareNew hy _, hext.trans (extends_declareNew _ _ _ _), available_declareNew⟩
  | .block hbody, h => by
    obtain ⟨h₁, hext, hy⟩ := tidy_of_lowersBody hbody h.push h.available_unit
    exact ⟨h₁.pop, (d.extends_push.trans hext).trans (extends_pop _), hy⟩

/-- Operands follow one another, and what one of them may read stays available. -/
theorem tidy_of_lowersAll {es : List Expr} {d d' : Draft} {xs : List Var} :
    LowersAll es d xs d' → d.Tidy → d'.Tidy ∧ d.Extends d' ∧ ∀ x ∈ xs, d'.Available x
  | .nil, h => ⟨h, .refl d, by simp⟩
  | .cons hfirst hsettle hrest, h => by
    obtain ⟨h₁, hext₁, hx⟩ := tidy_of_lowers hfirst h
    obtain ⟨h₂, hext₂, hx'⟩ := tidy_of_settles hsettle h₁ hx
    obtain ⟨h₃, hext₃, hxs⟩ := tidy_of_lowersAll hrest h₂
    refine ⟨h₃, (hext₁.trans hext₂).trans hext₃, ?_⟩
    simpa using ⟨hext₃.available hx', hxs⟩

/-- Statements do too; the value of the last one is available. -/
theorem tidy_of_lowersBody {es : List Expr} {d d' : Draft} {last x : Var} :
    LowersBody last es d x d' → d.Tidy → d.Available last →
      d'.Tidy ∧ d.Extends d' ∧ d'.Available x
  | .nil, h, hlast => ⟨h, .refl d, hlast⟩
  | .cons hfirst hrest, h, _ => by
    obtain ⟨h₁, hext₁, hy⟩ := tidy_of_lowers hfirst h
    obtain ⟨h₂, hext₂, hx⟩ := tidy_of_lowersBody hrest h₁ hy
    exact ⟨h₂, hext₁.trans hext₂, hx⟩

end

end Lowering

end ExprLang
