/-
  PATH SAFETY: no path through the code of a program reads an unwritten variable.

  The validator looks for a write anywhere earlier in the text, and that may be in a branch that
  a path passes over.  The truth is stronger: every variable that is read has been written on the
  way, whichever branches were taken.  Two things make it so.  A name declared in a block is out
  of scope behind it, so no branch leaves a name behind (`scopes_of_lowers_value`); and both ways
  through a conditional, `and` or `or` write the variable of the result.

  `Holds` says that a variable is written on every route to the end of a draft, or on every route
  that has left for a label.  While a construct is written its labels are its OWN: `Threads own`
  says that every route to where it has come, and every route that waits for one of its labels,
  went through the place where the construct begins, and that it leaves alone the routes that wait
  for a label of somebody else.  What holds in front of a construct therefore holds everywhere
  inside and behind it, and by induction on the rules of lowering every variable bound to a name
  holds wherever the name is in scope (`threads_of_lowers`).

  All jumps of generated code lead forward.  So its paths run off its end, and the machine, which
  takes one of them, executes no more instructions than there are (`run_of_generate`).
-/
import ExprLang.Proofs.ParsedTrees
import ExprLang.Proofs.Routes

namespace ExprLang

open Machine

namespace Draft

/-! ## What holds on every route -/

/-- Whether a variable is written on every route through the code of a draft. -/
def Holds (d : Draft) (heading : Option Label) (x : Var) : Prop :=
  ∀ executed, Route d.code.toList executed heading →
    x.name ∈ d.reserved ∨ x ∈ executed.filterMap Instr.writes

/-- Every route reads what it has written, and waits only for a label that was handed out. -/
structure Fed (d : Draft) : Prop where
  unit : unitName ∈ d.reserved
  supplied : ∀ executed heading, Route d.code.toList executed heading →
    Supplied d.reserved executed
  counted : ∀ executed l, Route d.code.toList executed (some l) → l.number ≤ d.labels

/-- Every name in scope has a variable that is written on every route. -/
def Backed (d : Draft) : Prop := ∀ l n x, d.scopes.binding l n = some x → d.Holds none x

/-- Before the first instruction nothing has been read and no label handed out. -/
theorem fed_start (reserved : List String) : (start reserved).Fed where
  unit := List.mem_cons_self
  supplied executed heading h := by
    obtain ⟨rfl, -⟩ := route_nil h
    exact supplied_nil _
  counted executed l h := by
    obtain ⟨-, hheading⟩ := route_nil h
    contradiction

/-- To begin with only the reserved names are in scope. -/
theorem backed_start (reserved : List String) : (start reserved).Backed := by
  intro l n x hbound executed _
  obtain ⟨-, hn, rfl⟩ := binding_start.1 hbound
  exact .inl (List.mem_cons_of_mem _ hn)

section

variable {d d' d'' : Draft} {x : Var} {action : Action} {loc : Location}

/-- The unit variable is reserved, so that every route supplies it. -/
theorem Fed.holds_unit (h : d.Fed) (heading : Option Label) : d.Holds heading .unit :=
  fun _ _ => .inl h.unit

/-- The variable of a name in scope is written on every route. -/
theorem Backed.holds_of_lookup (h : d.Backed) {n : String} (hlookup : d.scopes.lookup n = some x) :
    d.Holds none x := by
  obtain ⟨l, -, hbinding⟩ := Scopes.lookup_eq_some_iff.1 hlookup
  exact h l n x hbinding

/-- A new scope binds nothing. -/
theorem Backed.push (h : d.Backed) : d.push.Backed := fun l n x hbound =>
  h l n x ((Scopes.binding_push d.scopes l n).symm.trans hbound)

/-- What is in scope around the innermost scope was backed before. -/
theorem Backed.pop (h : d.Backed) : d.pop.Backed := fun l n x hbound =>
  h l n x (Scopes.binding_of_binding_pop hbound)

/-- A variable that is declared must hold, and all others do already. -/
theorem Backed.declare (h : d.Backed) (hx : d.Holds none x) (n : String) :
    (d.declare n x).Backed := by
  intro l m y hbound
  simp only [Draft.declare, Scopes.binding_define] at hbound
  split at hbound
  · obtain rfl := Option.some.inj hbound
    exact hx
  · exact h l m y hbound

/-- Behind an instruction a variable holds that held before or is written by it; at a label it
    must hold for those who jump there too. -/
theorem holds_emit (hpass : d.Holds none x ∨ (⟨action, loc⟩ : Instr).writes = some x)
    (hland : ∀ l, (⟨action, loc⟩ : Instr).defines = some l → d.Holds (some l) x) :
    (d.emit action loc).Holds none x := by
  intro executed hroute
  rw [code_emit] at hroute
  rcases route_append hroute with ⟨before, rfl, hbefore, -⟩ | ⟨_, hheading, -⟩ |
    ⟨before, l, rfl, -, hdefines, hbefore⟩
  · rw [List.filterMap_append, List.mem_append]
    rcases hpass with hx | hwrites
    · exact (hx _ hbefore).imp_right .inl
    · exact .inr (.inr (by simp [hwrites]))
  · contradiction
  · rw [List.filterMap_append, List.mem_append]
    exact (hland l hdefines _ hbefore).imp_right .inl

/-- Those who have left for a label are joined by those who leave now. -/
theorem holds_emit_some {l : Label} (hwaiting : d.Holds (some l) x)
    (hleave : l ∈ (⟨action, loc⟩ : Instr).targets → d.Holds none x) :
    (d.emit action loc).Holds (some l) x := by
  intro executed hroute
  rw [code_emit] at hroute
  rcases route_append hroute with ⟨before, rfl, hbefore, hheading⟩ | ⟨_, hheading, -, hbefore⟩ |
    ⟨_, _, -, hheading, -⟩
  · rcases hheading with ⟨-, hheading⟩ | ⟨l', hl', hheading⟩
    · contradiction
    · obtain rfl := Option.some.inj hheading
      rw [List.filterMap_append, List.mem_append]
      exact (hleave hl' _ hbefore).imp_right .inl
  · obtain rfl := Option.some.inj hheading
    exact hwaiting _ hbefore
  · contradiction

/-- Nobody waits for a label that was just handed out. -/
theorem Fed.holds_new (h : d.Fed) {l : Label} (hl : d.labels < l.number) (k : Nat) (x : Var) :
    (d.withLabels k).Holds (some l) x := fun _ hroute =>
  absurd (h.counted _ _ hroute) (Nat.not_le.2 hl)

/-- On the routes that wait for a label, an instruction that does not lead there changes nothing. -/
theorem Holds.waiting {l : Label} (h : d.Holds (some l) x)
    (hl : l ∉ (⟨action, loc⟩ : Instr).targets) : (d.emit action loc).Holds (some l) x :=
  holds_emit_some h fun hmem => absurd hmem hl

/-- What is minted for an instruction holds behind it. -/
theorem holds_emitNew {action : Var → Action}
    (hwrites : (⟨action d.next, loc⟩ : Instr).writes = some d.next)
    (hdefines : (⟨action d.next, loc⟩ : Instr).defines = none) :
    (d.emitNew action loc).Holds none d.next :=
  holds_emit (.inr hwrites) (by simp [hdefines])

/-- One way through a construct writes the result and leaves for the end. -/
theorem holds_left {y : Var} {l : Label} {loc' : Location} (h : d.Holds (some l) x) :
    ((d.emit (.copy y x) loc).emit (.jump l) loc').Holds (some l) x :=
  holds_emit_some (h.waiting (by simp [Instr.targets])) fun _ =>
    holds_emit (.inr rfl) (by simp [Instr.defines])

/-- The other way writes it too, and both meet at the end. -/
theorem holds_merged {y : Var} {l : Label} {loc' : Location} (h : d.Holds (some l) x) :
    ((d.emit (.copy y x) loc).emit (.label l) loc').Holds none x := by
  refine holds_emit (.inl (holds_emit (.inr rfl) (by simp [Instr.defines]))) ?_
  intro l' hl'
  obtain rfl : l = l' := by simpa [Instr.defines] using hl'
  exact h.waiting (by simp [Instr.targets])

/-- An instruction may be executed on every route that reads what holds. -/
theorem Fed.emit (h : d.Fed) (hreads : ∀ x ∈ (⟨action, loc⟩ : Instr).reads, d.Holds none x)
    (htargets : ∀ l ∈ (⟨action, loc⟩ : Instr).targets, l.number ≤ d.labels) :
    (d.emit action loc).Fed where
  unit := h.unit
  supplied executed heading hroute := by
    rw [code_emit] at hroute
    rcases route_append hroute with ⟨before, rfl, hbefore, -⟩ | ⟨_, -, -, hbefore⟩ |
      ⟨before, l, rfl, -, hdefines, hbefore⟩
    · exact (h.supplied _ _ hbefore).append fun x hx => hreads x hx _ hbefore
    · exact h.supplied _ _ hbefore
    · refine (h.supplied _ _ hbefore).append ?_
      cases action with
      | label => simp [Instr.reads]
      | _ => contradiction
  counted executed l hroute := by
    rw [code_emit] at hroute
    rcases route_append hroute with ⟨_, -, -, hheading⟩ | ⟨_, hheading, -, hbefore⟩ |
      ⟨_, _, -, hheading, -⟩
    · rcases hheading with ⟨-, hheading⟩ | ⟨l', hl', hheading⟩
      · contradiction
      · obtain rfl := Option.some.inj hheading
        exact htargets _ hl'
    · obtain rfl := Option.some.inj hheading
      exact h.counted _ _ hbefore
    · contradiction

end

/-! ## Constructs -/

/-- A draft in the middle of a construct that begins at an earlier one and owns some labels. -/
structure Threads (own : List Label) (d d' : Draft) : Prop where
  fed : d'.Fed
  reserved : d'.reserved = d.reserved
  labels : d.labels ≤ d'.labels
  minted : ∀ l ∈ own, d.labels < l.number ∧ l.number ≤ d'.labels
  /-- Routes to the end, and those that wait for a label of the construct, went through its
      beginning. -/
  through : ∀ executed heading, (∀ l, heading = some l → l ∈ own) →
    Route d'.code.toList executed heading →
      ∃ before, before <+: executed ∧ Route d.code.toList before none
  /-- Routes that wait for another label are left alone. -/
  outer : ∀ executed l, l.number ≤ d.labels → Route d'.code.toList executed (some l) →
    Route d.code.toList executed (some l)

namespace Threads

variable {own own' : List Label} {d d₁ d₂ : Draft} {x : Var} {loc : Location} {l : Label}

/-- Every draft is the beginning of a construct of its own, without labels. -/
theorem refl (h : d.Fed) : Threads [] d d where
  fed := h
  reserved := rfl
  labels := Nat.le_refl _
  minted := by simp
  through executed heading hown hroute := by
    rcases heading with _ | l
    · exact ⟨executed, List.prefix_refl _, hroute⟩
    · exact absurd (hown l rfl) List.not_mem_nil
  outer _ _ _ hroute := hroute

/-- A construct inside another. -/
theorem trans (h : Threads own d d₁) (h' : Threads own' d₁ d₂) : Threads (own ++ own') d d₂ where
  fed := h'.fed
  reserved := h'.reserved.trans h.reserved
  labels := Nat.le_trans h.labels h'.labels
  minted l hl := by
    rcases List.mem_append.1 hl with hl | hl
    · exact ⟨(h.minted l hl).1, Nat.le_trans (h.minted l hl).2 h'.labels⟩
    · exact ⟨Nat.lt_of_le_of_lt h.labels (h'.minted l hl).1, (h'.minted l hl).2⟩
  through executed heading hown hroute := by
    -- a route that waits for a label of the outer construct is left alone by the inner one
    by_cases hinner : ∀ l, heading = some l → l ∈ own'
    · obtain ⟨middle, hmiddle, hroute₁⟩ := h'.through executed heading hinner hroute
      obtain ⟨before, hbefore, hroute₀⟩ := h.through middle none (by simp) hroute₁
      exact ⟨before, hbefore.trans hmiddle, hroute₀⟩
    · simp only [not_forall] at hinner
      obtain ⟨l, rfl, hl⟩ := hinner
      have hmem : l ∈ own := (List.mem_append.1 (hown l rfl)).resolve_right hl
      refine h.through executed (some l) ?_ (h'.outer executed l (h.minted l hmem).2 hroute)
      intro l' hl'
      exact Option.some.inj hl' ▸ hmem
  outer executed l hl hroute :=
    h.outer executed l hl (h'.outer executed l (Nat.le_trans hl h.labels) hroute)

/-- Behind a construct another one may follow that keeps its labels to itself. -/
theorem followed (h : Threads own d d₁) (h' : Threads [] d₁ d₂) : Threads own d d₂ := by
  have := h.trans h'
  rwa [List.append_nil] at this

/-- A construct that is complete waits for nobody. -/
theorem close (h : Threads own d d₁) : Threads [] d d₁ where
  fed := h.fed
  reserved := h.reserved
  labels := h.labels
  minted := by simp
  through executed heading hnone := h.through executed heading fun l hl =>
    absurd (hnone l hl) List.not_mem_nil
  outer := h.outer

/-- A construct hands out its labels. -/
theorem ofLabels (h : d.Fed) {k : Nat}
    (hown : ∀ l ∈ own, d.labels < l.number ∧ l.number ≤ d.labels + k) :
    Threads own d (d.withLabels k) where
  fed := ⟨h.unit, h.supplied, fun executed l hroute =>
    Nat.le_trans (h.counted executed l hroute) (Nat.le_add_right _ _)⟩
  reserved := rfl
  labels := Nat.le_add_right _ _
  minted := hown
  through executed heading hmem hroute := by
    rcases heading with _ | l
    · exact ⟨executed, List.prefix_refl _, hroute⟩
    · have hcounted := h.counted executed l hroute
      have hnew := (hown l (hmem l rfl)).1
      omega
  outer _ _ _ hroute := hroute

/-- Variables and scopes have nothing to do with routes. -/
theorem of_code (h : Threads own d d₁) (hcode : d₂.code = d₁.code)
    (hreserved : d₂.reserved = d₁.reserved) (hlabels : d₂.labels = d₁.labels) :
    Threads own d d₂ where
  fed := ⟨hreserved ▸ h.fed.unit, by rw [hcode, hreserved]; exact h.fed.supplied,
    by rw [hcode, hlabels]; exact h.fed.counted⟩
  reserved := hreserved.trans h.reserved
  labels := hlabels ▸ h.labels
  minted := hlabels ▸ h.minted
  through := hcode ▸ h.through
  outer := hcode ▸ h.outer

/-- What holds at the beginning holds wherever the construct has come. -/
theorem holds (h : Threads own d d₁) (hx : d.Holds none x) : d₁.Holds none x := by
  intro executed hroute
  obtain ⟨before, hbefore, hroute₀⟩ := h.through executed none (by simp) hroute
  rw [h.reserved]
  exact (hx before hroute₀).imp_right fun hmem => (hbefore.filterMap Instr.writes).subset hmem

/-- What holds for those who wait for an older label goes on to hold. -/
theorem holds_outer (h : Threads own d d₁) (hl : l.number ≤ d.labels) (hx : d.Holds (some l) x) :
    d₁.Holds (some l) x := by
  intro executed hroute
  rw [h.reserved]
  exact hx executed (h.outer executed l hl hroute)

/-- What is bound at the beginning is bound to a variable that still holds. -/
theorem backed (h : Threads own d d₁) (hbacked : d.Backed) (hscopes : d₁.scopes = d.scopes) :
    d₁.Backed := by
  intro l n x hbound
  rw [hscopes] at hbound
  exact h.holds (hbacked l n x hbound)

/-- A construct writes an instruction: it places or jumps to labels of its own only. -/
theorem emit {action : Action} (h : Threads own d d₁)
    (hreads : ∀ x ∈ (⟨action, loc⟩ : Instr).reads, d₁.Holds none x)
    (hdefines : ∀ l, (⟨action, loc⟩ : Instr).defines = some l → l ∈ own)
    (htargets : ∀ l ∈ (⟨action, loc⟩ : Instr).targets, l ∈ own) :
    Threads own d (d₁.emit action loc) where
  fed := h.fed.emit hreads fun l hl => (h.minted l (htargets l hl)).2
  reserved := h.reserved
  labels := h.labels
  minted := h.minted
  through executed heading hown hroute := by
    rw [code_emit] at hroute
    -- the last instruction is executed, passed over, or the place where a jump arrives
    rcases route_append hroute with ⟨middle, rfl, hmiddle, -⟩ | ⟨l, rfl, -, hmiddle⟩ |
      ⟨middle, l, rfl, -, hl, hmiddle⟩
    · obtain ⟨before, hbefore, hroute₀⟩ := h.through middle none (by simp) hmiddle
      exact ⟨before, hbefore.trans (List.prefix_append _ _), hroute₀⟩
    · exact h.through executed (some l) hown hmiddle
    · obtain ⟨before, hbefore, hroute₀⟩ := h.through middle (some l)
        (fun l' hl' => Option.some.inj hl' ▸ hdefines l hl) hmiddle
      exact ⟨before, hbefore.trans (List.prefix_append _ _), hroute₀⟩
  outer executed l hl hroute := by
    rw [code_emit] at hroute
    rcases route_append hroute with ⟨_, -, -, hheading⟩ | ⟨_, hheading, -, hmiddle⟩ |
      ⟨_, _, -, hheading, -⟩
    · rcases hheading with ⟨-, hheading⟩ | ⟨l', hl', hheading⟩
      · contradiction
      · -- a label of the construct is newer than those that others wait for
        obtain rfl := Option.some.inj hheading
        exact absurd hl (Nat.not_le.2 (h.minted l (htargets l hl')).1)
    · obtain rfl := Option.some.inj hheading
      exact h.outer executed l hl hmiddle
    · contradiction

/-- A variable that is written on every route may be copied. -/
theorem emit_copy {y : Var} (h : Threads own d d₁) (hx : d₁.Holds none x) :
    Threads own d (d₁.emit (.copy x y) loc) :=
  h.emit (by simpa [Instr.reads] using hx) (by simp [Instr.defines]) (by simp [Instr.targets])

/-- A label of the construct may be placed. -/
theorem emit_label (h : Threads own d d₁) (hl : l ∈ own) :
    Threads own d (d₁.emit (.label l) loc) :=
  h.emit (by simp [Instr.reads]) (by simpa [Instr.defines] using hl) (by simp [Instr.targets])

/-- The way may lead to a label of the construct. -/
theorem emit_jump (h : Threads own d d₁) (hl : l ∈ own) :
    Threads own d (d₁.emit (.jump l) loc) :=
  h.emit (by simp [Instr.reads]) (by simp [Instr.defines]) (by simpa [Instr.targets] using hl)

/-- The way may part for two labels of the construct. -/
theorem emit_branch {l' : Label} (h : Threads own d d₁) (hx : d₁.Holds none x) (hl : l ∈ own)
    (hl' : l' ∈ own) : Threads own d (d₁.emit (.branch x l l') loc) :=
  h.emit (by simpa [Instr.reads] using hx) (by simp [Instr.defines])
    (by simpa [Instr.targets] using ⟨hl, hl'⟩)

/-- A logical operator parts the way as a branch does, in one order or the other. -/
theorem emit_logicBranch {op : String} {l' : Label} (h : Threads own d d₁)
    (hx : d₁.Holds none x) (hl : l ∈ own) (hl' : l' ∈ own) :
    Threads own d (d₁.emit (Lowering.logicBranch op x l l') loc) := by
  unfold Lowering.logicBranch
  split
  · exact h.emit_branch hx hl' hl
  · exact h.emit_branch hx hl hl'

/-- A construct hands out its labels, branches, and goes on behind the first label. -/
theorem branched {k : Nat} {l' : Label} (h : d.Fed) (hx : d.Holds none x)
    (hown : ∀ l ∈ own, d.labels < l.number ∧ l.number ≤ d.labels + k) (hl : l ∈ own)
    (hl' : l' ∈ own) (loc : Location) :
    Threads own d (((d.withLabels k).emit (.branch x l l') loc).emit (.label l) loc) :=
  ((Threads.ofLabels h hown).emit_branch hx hl hl').emit_label hl

/-- More labels may be handed out; nobody waits for them yet. -/
theorem grown (h : Threads own d d₁) : Threads own d d₁.grown := h.of_code rfl rfl rfl

/-- An instruction that places no label and jumps nowhere, with a new destination. -/
theorem emitNew {action : Var → Action} (h : Threads own d d₁)
    (hreads : ∀ x ∈ (⟨action d₁.next, loc⟩ : Instr).reads, d₁.Holds none x)
    (hdefines : (⟨action d₁.next, loc⟩ : Instr).defines = none)
    (htargets : (⟨action d₁.next, loc⟩ : Instr).targets = []) :
    Threads own d (d₁.emitNew action loc) :=
  h.grown.emit hreads (by simp [hdefines]) (by simp [htargets])

end Threads

end Draft

/-! ## The code of an expression -/

namespace Lowering

open Draft

variable {names : String → Prop}

/-! ### Names in scope -/

/-- What a tree may do to the names in scope: a value leaves them as they were, and a statement
    declares at most one. -/
def MayDeclare (place : Place) (d d' : Draft) : Prop :=
  d'.scopes = d.scopes ∨ place ≠ .value ∧ ∃ n y, d'.scopes = d.scopes.define n y

/-- A value declares nothing. -/
theorem MayDeclare.value {d d' : Draft} (h : MayDeclare .value d d') : d'.scopes = d.scopes :=
  h.resolve_right fun ⟨hplace, _⟩ => hplace rfl

mutual

/-- Declarations are statements, so that a tree changes the scope it stands in only by declaring a
    name. -/
theorem mayDeclare_of_lowers {e : Expr} {place : Place} {d d' : Draft} {x : Var} :
    Lowers e d x d' → e.Fits names place → MayDeclare place d d'
  | .int, _ => .inl rfl
  | .bool, _ => .inl rfl
  | .unit, _ => .inl rfl
  | .name _, _ => .inl rfl
  | .unary _ hoperand, hfits => by
    have hoperand := (mayDeclare_of_lowers hoperand hfits.2).value
    exact .inl hoperand
  | .assign _ hright, hfits => by
    have hright := (mayDeclare_of_lowers hright hfits.2.2).value
    exact .inl hright
  | .logic _ hleft _ _ _ hright hmerge, hfits => by
    have hleft := (mayDeclare_of_lowers hleft hfits.2.1).value
    have hright := (mayDeclare_of_lowers hright hfits.2.2).value
    -- the labels and jumps between the two sides declare nothing
    subst hmerge
    exact .inl (hright.trans hleft)
  | .operation _ _ _ hleft hsettle hright, hfits => by
    have hleft := (mayDeclare_of_lowers hleft hfits.2.1).value
    have hright := (mayDeclare_of_lowers hright hfits.2.2).value
    refine .inl (hright.trans (Eq.trans ?_ hleft))
    cases hsettle <;> rfl
  | .ifThen hcondition _ _ hthen, hfits => by
    have hcondition := (mayDeclare_of_lowers hcondition hfits.1).value
    have hthen := (mayDeclare_of_lowers hthen hfits.2).value
    exact .inl (hthen.trans hcondition)
  | .ifElseUnit hcondition _ _ _ hthen helse, hfits
  | .ifElse hcondition _ _ _ hthen _ helse, hfits => by
    have hcondition := (mayDeclare_of_lowers hcondition hfits.1).value
    have hthen := (mayDeclare_of_lowers hthen hfits.2.1).value
    have helse := (mayDeclare_of_lowers helse hfits.2.2).value
    exact .inl ((helse.trans hthen).trans hcondition)
  | .call hfunction hsettle harguments, hfits => by
    have hfunction := (mayDeclare_of_lowers hfunction hfits.2.1).value
    have harguments := scopes_of_lowersAll_fits harguments hfits.2.2
    refine .inl (harguments.trans (Eq.trans ?_ hfunction))
    cases hsettle <;> rfl
  | @Lowers.var d d₁ loc n value x hvalue, hfits => by
    refine .inr ⟨hfits.1, n, d₁.next, ?_⟩
    rw [← (mayDeclare_of_lowers hvalue hfits.2.2).value]
    rfl
  | .block hbody, hfits => .inl
    (scopes_of_lowersBody_fits hbody hfits (Nat.succ_pos _)).1

/-- Arguments are values, and declare nothing. -/
theorem scopes_of_lowersAll_fits {es : List Expr} {d d' : Draft} {xs : List Var} :
    LowersAll es d xs d' → Expr.FitAll names es → d'.scopes = d.scopes
  | .nil, _ => rfl
  | .cons hfirst hsettle hrest, hfits => by
    have hfirst := (mayDeclare_of_lowers hfirst hfits.1).value
    have hrest := scopes_of_lowersAll_fits hrest hfits.2
    refine hrest.trans (Eq.trans ?_ hfirst)
    cases hsettle <;> rfl

/-- Statements change the innermost scope only. -/
theorem scopes_of_lowersBody_fits {es : List Expr} {place : Place} {d d' : Draft} {last x : Var} :
    LowersBody last es d x d' → Expr.FitBody names place es → 0 < d.scopes.depth →
      d'.scopes.pop = d.scopes.pop ∧ d'.scopes.depth = d.scopes.depth
  | .nil, _, _ => ⟨rfl, rfl⟩
  | @LowersBody.cons d d₁ _ _ _ _ _ _ hfirst hrest, hfits, hinner => by
    have hstep : d₁.scopes.pop = d.scopes.pop ∧ d₁.scopes.depth = d.scopes.depth := by
      rcases mayDeclare_of_lowers hfirst hfits.1 with hscopes | ⟨-, n, y, hscopes⟩
      · rw [hscopes]
        exact ⟨rfl, rfl⟩
      · rw [hscopes]
        exact ⟨Scopes.pop_define hinner n y, Scopes.depth_define _ _ _⟩
    have hbehind := scopes_of_lowersBody_fits hrest hfits.2 (hstep.2.symm ▸ hinner)
    exact ⟨hbehind.1.trans hstep.1, hbehind.2.trans hstep.2⟩

end

/-- What stands where a value is wanted leaves the names as they were. -/
theorem scopes_of_lowers_value {e : Expr} {d d' : Draft} {x : Var} (h : Lowers e d x d')
    (hfits : e.Fits names .value) : d'.scopes = d.scopes := (mayDeclare_of_lowers h hfits).value

/-! ### Routes -/

/-- An instruction that reads what holds writes a new variable. -/
theorem threads_emitNew {action : Var → Action} {loc : Location} {d d' : Draft}
    (h : Threads [] d d') (hbacked : d'.Backed)
    (hreads : ∀ x ∈ (⟨action d'.next, loc⟩ : Instr).reads, d'.Holds none x)
    (hwrites : (⟨action d'.next, loc⟩ : Instr).writes = some d'.next)
    (hdefines : (⟨action d'.next, loc⟩ : Instr).defines = none)
    (htargets : (⟨action d'.next, loc⟩ : Instr).targets = []) :
    Threads [] d (d'.emitNew action loc) ∧ (d'.emitNew action loc).Backed ∧
      (d'.emitNew action loc).Holds none d'.next :=
  ⟨h.emitNew hreads hdefines htargets,
    ((Threads.refl h.fed).emitNew hreads hdefines htargets).backed hbacked rfl,
    holds_emitNew hwrites hdefines⟩

/-- What holds a value may be copied to a new variable, which then holds it. -/
theorem threads_copy {x : Var} {loc : Location} {d d' : Draft} (h : Threads [] d d')
    (hbacked : d'.Backed) (hx : d'.Holds none x) :
    Threads [] d (d'.emitNew (.copy x) loc) ∧ (d'.emitNew (.copy x) loc).Backed ∧
      (d'.emitNew (.copy x) loc).Holds none d'.next :=
  threads_emitNew h hbacked (by simpa [Instr.reads] using hx) rfl rfl rfl

/-- A call of what holds with what holds. -/
theorem threads_call {callee : Var} {xs : List Var} {loc : Location} {d d' : Draft}
    (h : Threads [] d d') (hbacked : d'.Backed) (hcallee : d'.Holds none callee)
    (hxs : ∀ x ∈ xs, d'.Holds none x) :
    Threads [] d (d'.emitNew (.call callee xs) loc) ∧
      (d'.emitNew (.call callee xs) loc).Backed ∧
      (d'.emitNew (.call callee xs) loc).Holds none d'.next :=
  threads_emitNew h hbacked (by simpa [Instr.reads] using ⟨hcallee, hxs⟩) rfl rfl rfl

/-- Whether an operand is copied aside or not, it can be read afterwards. -/
theorem threads_of_settles {x y : Var} {overwritten : Bool} {loc : Location} {d d' : Draft}
    (hsettle : Settles x overwritten loc d y d') (h : d.Fed) (hbacked : d.Backed)
    (hx : d.Holds none x) : Threads [] d d' ∧ d'.Backed ∧ d'.Holds none y := by
  cases hsettle with
  | keep => exact ⟨.refl h, hbacked, hx⟩
  | copy => exact threads_copy (.refl h) hbacked hx

/-! ### Labels of a construct -/

section

variable {stem stem' stem'' : String} (hstem : Label.IsStem stem) (hstem' : Label.IsStem stem')
  (hstem'' : Label.IsStem stem'') (k : Nat)

include hstem hstem'

/-- Two labels taken in a row are new. -/
theorem minted_two :
    ∀ l ∈ [Label.numbered stem (k + 1), Label.numbered stem' (k + 2)],
      k < l.number ∧ l.number ≤ k + 2 := by
  simp only [List.mem_cons, List.not_mem_nil, or_false, forall_eq_or_imp, forall_eq,
    Label.number_numbered hstem, Label.number_numbered hstem']
  omega

include hstem''

/-- Three labels taken in a row are new. -/
theorem minted_three :
    ∀ l ∈ [Label.numbered stem (k + 1), Label.numbered stem' (k + 2),
        Label.numbered stem'' (k + 3)], k < l.number ∧ l.number ≤ k + 3 := by
  simp only [List.mem_cons, List.not_mem_nil, or_false, forall_eq_or_imp, forall_eq,
    Label.number_numbered hstem, Label.number_numbered hstem', Label.number_numbered hstem'']
  omega

/-- The label of the end is not one of the two that the branch goes to. -/
theorem end_not_mem :
    Label.numbered stem'' (k + 3) ∉
      [Label.numbered stem (k + 1), Label.numbered stem' (k + 2)] := by
  intro hmem
  have hnumber := (minted_two hstem hstem' k _ hmem).2
  rw [Label.number_numbered hstem''] at hnumber
  omega

end

/-- The branch of a logical operator leads to the two labels it was given. -/
theorem targets_logicBranch {op : String} {x : Var} {l l' l'' : Label} {loc : Location}
    (h : l'' ∈ (⟨logicBranch op x l l', loc⟩ : Instr).targets) : l'' ∈ [l, l'] := by
  unfold logicBranch at h
  split at h
  · simpa [Instr.targets, or_comm] using h
  · exact h

mutual

/-- Every route through the code of an expression finds what it reads; the value holds behind
    it, and so does every name in scope. -/
theorem threads_of_lowers {e : Expr} {place : Place} {d d' : Draft} {x : Var} :
    Lowers e d x d' → e.Fits names place → d.Fed → d.Backed →
      Threads [] d d' ∧ d'.Backed ∧ d'.Holds none x
  | .int, _, h, hbacked => threads_emitNew (.refl h) hbacked (by simp [Instr.reads]) rfl rfl rfl
  | .bool, _, h, hbacked => threads_emitNew (.refl h) hbacked (by simp [Instr.reads]) rfl rfl rfl
  | .unit, _, h, hbacked => ⟨.refl h, hbacked, h.holds_unit none⟩
  | .name hbound, _, h, hbacked => ⟨.refl h, hbacked, hbacked.holds_of_lookup hbound⟩
  | .unary hcallee hoperand, hfits, h, hbacked => by
    obtain ⟨h₁, hbacked₁, hx⟩ := threads_of_lowers hoperand hfits.2 h hbacked
    exact threads_call h₁ hbacked₁ (h₁.holds (hbacked.holds_of_lookup hcallee)) (by simpa using hx)
  | .assign hcell hright, hfits, h, hbacked => by
    obtain ⟨h₁, hbacked₁, hx⟩ := threads_of_lowers hright hfits.2.2 h hbacked
    refine ⟨h₁.emit_copy hx, ((Threads.refl h₁.fed).emit_copy hx).backed hbacked₁ rfl, ?_⟩
    exact (h₁.emit_copy hx).holds (hbacked.holds_of_lookup hcell)
  | @Lowers.logic d d₁ d₂ d₃ loc op left right x y rightLabel skipLabel endLabel hop hleft
      hrightLabel hskipLabel hendLabel hright hmerge, hfits, h, hbacked => by
    obtain ⟨h₁, hbacked₁, hx⟩ := threads_of_lowers hleft hfits.2.1 h hbacked
    have hscopes := scopes_of_lowers_value hright hfits.2.2
    obtain ⟨hminted, hend⟩ : (∀ l ∈ [rightLabel, skipLabel, endLabel],
        d₁.labels < l.number ∧ l.number ≤ d₁.labels + 3) ∧ endLabel ∉ [rightLabel, skipLabel] := by
      have hstems : Label.IsStem (op ++ "_right") ∧ Label.IsStem (op ++ "_skip") ∧
          Label.IsStem (op ++ "_end") := by
        rcases hop with rfl | rfl <;> decide
      rw [hrightLabel, hskipLabel, hendLabel]
      exact ⟨minted_three hstems.1 hstems.2.1 hstems.2.2 d₁.labels,
        end_not_mem hstems.1 hstems.2.1 hstems.2.2 d₁.labels⟩
    have hopen : Threads [rightLabel, skipLabel, endLabel] d₁
        ((((d₁.withLabels 3).emit (logicBranch op x rightLabel skipLabel) loc).grown).emit
          (.label rightLabel) loc) :=
      (((Threads.ofLabels h₁.fed hminted).emit_logicBranch hx (by simp) (by simp)).grown).emit_label
        (by simp)
    obtain ⟨hinner, -, hy⟩ :=
      threads_of_lowers hright hfits.2.2 hopen.fed (hopen.backed hbacked₁ rfl)
    have hother : Threads [rightLabel, skipLabel, endLabel] d₁ d₃ := by
      rw [hmerge]
      exact (((hopen.followed hinner).emit_copy hy).emit_jump (by simp)).emit_label (by simp)
    have hend' : Threads [rightLabel, skipLabel, endLabel] d₁
        (((d₃.emitNew (.loadBool (decide (op = "or"))) loc).emit (.copy d₃.next d₁.next) loc).emit
          (.label endLabel) loc) :=
      ((hother.emitNew (by simp [Instr.reads]) rfl rfl).emit_copy
        (holds_emitNew rfl rfl)).emit_label (by simp)
    -- nobody waits for the end before the right side has written the result
    have hnew : (d₁.withLabels 3).Holds (some endLabel) d₁.next :=
      h₁.fed.holds_new (hminted _ (by simp)).1 3 _
    have hwait : d₂.Holds (some endLabel) d₁.next :=
      hinner.holds_outer (hopen.minted _ (by simp)).2
        ((hnew.waiting (mt targets_logicBranch hend)).waiting List.not_mem_nil)
    have hleft : d₃.Holds (some endLabel) d₁.next := by
      rw [hmerge]
      exact (holds_left hwait).waiting List.not_mem_nil
    have hdecided : (d₃.emitNew (.loadBool (decide (op = "or"))) loc).Holds (some endLabel)
        d₁.next := Holds.waiting hleft List.not_mem_nil
    have hscopes' : d₃.scopes = d₁.scopes := by
      rw [hmerge]
      exact hscopes
    exact ⟨h₁.followed hend'.close, hend'.backed hbacked₁ hscopes', holds_merged hdecided⟩
  | .operation _ _ hcallee hleft hsettle hright, hfits, h, hbacked => by
    obtain ⟨h₁, hbacked₁, hx⟩ := threads_of_lowers hleft hfits.2.1 h hbacked
    obtain ⟨h₂, hbacked₂, hx'⟩ := threads_of_settles hsettle h₁.fed hbacked₁ hx
    obtain ⟨h₃, hbacked₃, hy⟩ := threads_of_lowers hright hfits.2.2 h₂.fed hbacked₂
    have hall := (h₁.followed h₂).followed h₃
    exact threads_call hall hbacked₃ (hall.holds (hbacked.holds_of_lookup hcallee))
      (by simpa using ⟨h₃.holds hx', hy⟩)
  | @Lowers.ifThen d d₁ d₂ loc condition thenBranch x y _ _ hcondition hthenLabel hendLabel hthen,
      hfits, h, hbacked => by
    obtain ⟨h₁, hbacked₁, hx⟩ := threads_of_lowers hcondition hfits.1 h hbacked
    have hscopes := scopes_of_lowers_value hthen hfits.2
    subst hthenLabel hendLabel
    have hopen := Threads.branched h₁.fed hx (minted_two Label.isStem_then Label.isStem_ifEnd
      d₁.labels) List.mem_cons_self (List.mem_cons_of_mem _ List.mem_cons_self) loc
    obtain ⟨hinner, -, -⟩ :=
      threads_of_lowers hthen hfits.2 hopen.fed (hopen.backed hbacked₁ rfl)
    have hend : Threads _ d₁ (d₂.emit (.label (.numbered "if_end" (d₁.labels + 2))) loc) :=
      (hopen.followed hinner).emit_label (by simp)
    exact ⟨h₁.followed hend.close, hend.backed hbacked₁ hscopes, hend.fed.holds_unit none⟩
  | @Lowers.ifElseUnit d d₁ d₂ d₃ loc condition thenBranch elseBranch x z _ _ _ hcondition
      hthenLabel helseLabel hendLabel hthen helse, hfits, h, hbacked => by
    obtain ⟨h₁, hbacked₁, hx⟩ := threads_of_lowers hcondition hfits.1 h hbacked
    have hscopes := scopes_of_lowers_value hthen hfits.2.1
    have hscopes' := scopes_of_lowers_value helse hfits.2.2
    subst hthenLabel helseLabel hendLabel
    have hopen := Threads.branched h₁.fed hx (minted_three Label.isStem_then Label.isStem_else
      Label.isStem_ifEnd d₁.labels) List.mem_cons_self
      (List.mem_cons_of_mem _ List.mem_cons_self) loc
    obtain ⟨hinner, -, -⟩ :=
      threads_of_lowers hthen hfits.2.1 hopen.fed (hopen.backed hbacked₁ rfl)
    have hother : Threads _ d₁ ((d₂.emit (.jump (.numbered "if_end" (d₁.labels + 3))) loc).emit
        (.label (.numbered "else" (d₁.labels + 2))) loc) :=
      ((hopen.followed hinner).emit_jump (by simp)).emit_label (by simp)
    obtain ⟨hinner', -, -⟩ :=
      threads_of_lowers helse hfits.2.2 hother.fed (hother.backed hbacked₁ hscopes)
    have hend : Threads _ d₁ (d₃.emit (.label (.numbered "if_end" (d₁.labels + 3))) loc) :=
      (hother.followed hinner').emit_label (by simp)
    exact ⟨h₁.followed hend.close, hend.backed hbacked₁ (hscopes'.trans hscopes),
      hend.fed.holds_unit none⟩
  | @Lowers.ifElse d d₁ d₂ d₃ loc condition thenBranch elseBranch x y z thenLabel elseLabel
      endLabel hcondition hthenLabel helseLabel hendLabel hthen _ helse, hfits, h, hbacked => by
    obtain ⟨h₁, hbacked₁, hx⟩ := threads_of_lowers hcondition hfits.1 h hbacked
    have hscopes := scopes_of_lowers_value hthen hfits.2.1
    have hscopes' := scopes_of_lowers_value helse hfits.2.2
    obtain ⟨hminted, hend⟩ : (∀ l ∈ [thenLabel, elseLabel, endLabel],
        d₁.labels < l.number ∧ l.number ≤ d₁.labels + 3) ∧ endLabel ∉ [thenLabel, elseLabel] := by
      rw [hthenLabel, helseLabel, hendLabel]
      exact ⟨minted_three Label.isStem_then Label.isStem_else Label.isStem_ifEnd d₁.labels,
        end_not_mem Label.isStem_then Label.isStem_else Label.isStem_ifEnd d₁.labels⟩
    have hopen := Threads.branched h₁.fed hx hminted List.mem_cons_self
      (List.mem_cons_of_mem _ List.mem_cons_self) loc
    obtain ⟨hinner, -, hy⟩ :=
      threads_of_lowers hthen hfits.2.1 hopen.fed (hopen.backed hbacked₁ rfl)
    have hother : Threads [thenLabel, elseLabel, endLabel] d₁
        (((d₂.emitNew (.copy y) loc).emit (.jump endLabel) loc).emit (.label elseLabel) loc) :=
      (((hopen.followed hinner).grown.emit_copy hy).emit_jump (by simp)).emit_label (by simp)
    obtain ⟨hinner', -, hz⟩ :=
      threads_of_lowers helse hfits.2.2 hother.fed (hother.backed hbacked₁ hscopes)
    have hend' : Threads [thenLabel, elseLabel, endLabel] d₁
        ((d₃.emit (.copy z d₂.next) loc).emit (.label endLabel) loc) :=
      ((hother.followed hinner').emit_copy hz).emit_label (by simp)
    -- nobody waits for the end before the first branch has written the result
    have hnew : (d₁.withLabels 3).Holds (some endLabel) d₂.next :=
      h₁.fed.holds_new (hminted _ (by simp)).1 3 _
    have hbranched : ((d₁.withLabels 3).emit (.branch x thenLabel elseLabel) loc).Holds
        (some endLabel) d₂.next := hnew.waiting hend
    have hwait : d₂.Holds (some endLabel) d₂.next :=
      hinner.holds_outer (hopen.minted _ (by simp)).2 (hbranched.waiting List.not_mem_nil)
    have hleft : (((d₂.emitNew (.copy y) loc).emit (.jump endLabel) loc).emit
        (.label elseLabel) loc).Holds (some endLabel) d₂.next :=
      Holds.waiting (holds_left hwait) List.not_mem_nil
    exact ⟨h₁.followed hend'.close, hend'.backed hbacked₁ (hscopes'.trans hscopes),
      holds_merged (hinner'.holds_outer (hother.minted _ (by simp)).2 hleft)⟩
  | .call hfunction hsettle harguments, hfits, h, hbacked => by
    obtain ⟨h₁, hbacked₁, hx⟩ := threads_of_lowers hfunction hfits.2.1 h hbacked
    obtain ⟨h₂, hbacked₂, hx'⟩ := threads_of_settles hsettle h₁.fed hbacked₁ hx
    obtain ⟨h₃, hbacked₃, hxs⟩ := threads_of_lowersAll harguments hfits.2.2 h₂.fed hbacked₂
    exact threads_call ((h₁.followed h₂).followed h₃) hbacked₃ (h₃.holds hx') hxs
  | .var hvalue, hfits, h, hbacked => by
    obtain ⟨h₁, hbacked₁, hx⟩ := threads_of_lowers hvalue hfits.2.2 h hbacked
    obtain ⟨h₂, hbacked₂, hcell⟩ := threads_copy h₁ hbacked₁ hx
    exact ⟨h₂.of_code rfl rfl rfl, hbacked₂.declare hcell _, hcell⟩
  | .block hbody, hfits, h, hbacked => by
    have hpush : Threads [] d d.push := (Threads.refl h).of_code rfl rfl rfl
    obtain ⟨h₁, hbacked₁, hx⟩ :=
      threads_of_lowersBody hbody hfits hpush.fed hbacked.push (h.holds_unit none)
    exact ⟨(hpush.followed h₁).of_code rfl rfl rfl, hbacked₁.pop, hx⟩

/-- Arguments follow one another, and each one is still held when the last one is through. -/
theorem threads_of_lowersAll {es : List Expr} {d d' : Draft} {xs : List Var} :
    LowersAll es d xs d' → Expr.FitAll names es → d.Fed → d.Backed →
      Threads [] d d' ∧ d'.Backed ∧ ∀ x ∈ xs, d'.Holds none x
  | .nil, _, h, hbacked => ⟨.refl h, hbacked, by simp⟩
  | .cons hfirst hsettle hrest, hfits, h, hbacked => by
    obtain ⟨h₁, hbacked₁, hx⟩ := threads_of_lowers hfirst hfits.1 h hbacked
    obtain ⟨h₂, hbacked₂, hx'⟩ := threads_of_settles hsettle h₁.fed hbacked₁ hx
    obtain ⟨h₃, hbacked₃, hxs⟩ := threads_of_lowersAll hrest hfits.2 h₂.fed hbacked₂
    refine ⟨(h₁.followed h₂).followed h₃, hbacked₃, ?_⟩
    simpa using ⟨h₃.holds hx', hxs⟩

/-- Statements follow one another, and the last one gives the value. -/
theorem threads_of_lowersBody {es : List Expr} {place : Place} {d d' : Draft} {last x : Var} :
    LowersBody last es d x d' → Expr.FitBody names place es → d.Fed → d.Backed →
      d.Holds none last → Threads [] d d' ∧ d'.Backed ∧ d'.Holds none x
  | .nil, _, h, hbacked, hlast => ⟨.refl h, hbacked, hlast⟩
  | .cons hfirst hrest, hfits, h, hbacked, _ => by
    obtain ⟨h₁, hbacked₁, hy⟩ := threads_of_lowers hfirst hfits.1 h hbacked
    obtain ⟨h₂, hbacked₂, hx⟩ := threads_of_lowersBody hrest hfits.2 h₁.fed hbacked₁ hy
    exact ⟨h₁.followed h₂, hbacked₂, hx⟩

end

/-! ## Whole programs -/

/-- The routes through a whole program: the call that prints its value is fed too. -/
theorem fed_of_lowersProgram {reserved : List String} {program : Expr} {ty : Ty} {d : Draft}
    (h : LowersProgram program ty (.start reserved) d) (hfits : program.Fits names .value) :
    d.Fed ∧ d.reserved = unitName :: reserved := by
  cases h with
  | silent _ hprogram =>
    obtain ⟨hthreads, -, -⟩ :=
      threads_of_lowers hprogram hfits (fed_start reserved) (backed_start reserved)
    exact ⟨hthreads.fed, hthreads.reserved⟩
  | @prints _ _ x d' _ hprogram hcallee =>
    obtain ⟨hthreads, hbacked, hx⟩ :=
      threads_of_lowers hprogram hfits (fed_start reserved) (backed_start reserved)
    have hxs : ∀ y ∈ [x], d'.Holds none y := by simpa using hx
    obtain ⟨hcall, -, -⟩ := threads_call hthreads hbacked (hbacked.holds_of_lookup hcallee) hxs
    exact ⟨hcall.fed, hcall.reserved⟩

/-- No label of generated code is placed twice, and every jump leads forward. -/
theorem forward_of_generate {program : Expr} {reserved : List String} {ty : Ty} {code : List Instr}
    (hgenerate : generate reserved program ty = .ok code) :
    (Validity.definedLabels code).Nodup ∧ ∀ k i, code[k]? = some i → ∀ l ∈ i.targets,
      l ∈ Validity.definedLabels (code.drop (k + 1)) := by
  obtain ⟨d, hprogram, rfl⟩ := generate_eq_ok.1 hgenerate
  obtain ⟨-, hlabelled, -⟩ := invariants_of_lowersProgram hprogram
  exact ⟨hlabelled.nodup, fun k i hi l hl =>
    (hlabelled.forward k i hi l hl).resolve_left List.not_mem_nil⟩

/-- The machine stops in generated code, whatever the tree was: it executes no more instructions
    than there are. -/
theorem run_of_generate {program : Expr} {reserved : List String} {ty : Ty} {code : List Instr}
    (hgenerate : generate reserved program ty = .ok code) (store : Store) (output : Output)
    (s : State) : Machine.run code code.length ⟨0, store, output⟩ ≠ .interrupted s := by
  obtain ⟨hnodup, hforward⟩ := forward_of_generate hgenerate
  exact run_of_forward hnodup hforward rfl s

/-- The code of a parsed program, however its branches are taken: execution visits later and
    later positions, runs off the end of the code, and reads only what is reserved or was written
    on the way. -/
theorem path_of_generate {tokens : List Token} {program : Expr} {reserved : List String} {ty : Ty}
    {code : List Instr} (hparse : Grammar.parse tokens = .ok (some program))
    (hgenerate : generate reserved program ty = .ok code) (choose : List Nat → Bool) :
    ∃ positions, path? code choose code.length [] 0 = some positions ∧
      positions.Pairwise (· < ·) ∧ (∀ p ∈ positions, p < code.length) ∧
      Supplied (unitName :: reserved) (instructionsAt code positions) := by
  obtain ⟨d, hprogram, rfl⟩ := generate_eq_ok.1 hgenerate
  have hspelt : Grammar.Spelt (fun _ => True) tokens := fun _ _ _ => trivial
  obtain ⟨hfed, hreserved⟩ := fed_of_lowersProgram hprogram (Grammar.fits_of_parse hspelt hparse)
  obtain ⟨hnodup, hforward⟩ := forward_of_generate hgenerate
  obtain ⟨positions, hpath, hincreasing, hbelow, hroute⟩ := path_of_forward hnodup hforward choose
  refine ⟨positions, hpath, hincreasing, hbelow, ?_⟩
  rw [← hreserved]
  exact hfed.supplied _ _ hroute

set_option maxRecDepth 4000 in
/-- `if true then 1 else 2` on the path that the machine never takes. -/
theorem path_of_generate_elseBranch :
    ∃ tokens program code positions, Grammar.parse tokens = .ok (some program) ∧
      generate ["x1"] program .unit = .ok code ∧ code.length = 10 ∧
      path? code (fun _ => false) code.length [] 0 = some positions ∧
      positions.Pairwise (· < ·) ∧ (∀ p ∈ positions, p < code.length) ∧
      Supplied (unitName :: ["x1"]) (instructionsAt code positions) := by
  have hparse : Grammar.parse [⟨.identifier, "if", .known ⟨1, 1⟩⟩,
      ⟨.boolean, "true", .known ⟨1, 4⟩⟩, ⟨.identifier, "then", .known ⟨1, 9⟩⟩,
      ⟨.integer, "1", .known ⟨1, 14⟩⟩, ⟨.identifier, "else", .known ⟨1, 16⟩⟩,
      ⟨.integer, "2", .known ⟨1, 21⟩⟩] = .ok (some (.ifElse (.known ⟨1, 1⟩)
        (.bool (.known ⟨1, 4⟩) true) (.int (.known ⟨1, 14⟩) 1) (.int (.known ⟨1, 21⟩) 2))) := by
    cbv
  have hgenerate : generate ["x1"] (.ifElse (.known ⟨1, 1⟩) (.bool (.known ⟨1, 4⟩) true)
      (.int (.known ⟨1, 14⟩) 1) (.int (.known ⟨1, 21⟩) 2)) .unit = .ok [
        ⟨.loadBool true ⟨"x2"⟩, .known ⟨1, 4⟩⟩,
        ⟨.branch ⟨"x2"⟩ ⟨"then1"⟩ ⟨"else2"⟩, .known ⟨1, 1⟩⟩,
        ⟨.label ⟨"then1"⟩, .known ⟨1, 1⟩⟩, ⟨.loadInt 1 ⟨"x3"⟩, .known ⟨1, 14⟩⟩,
        ⟨.copy ⟨"x3"⟩ ⟨"x4"⟩, .known ⟨1, 1⟩⟩, ⟨.jump ⟨"if_end3"⟩, .known ⟨1, 1⟩⟩,
        ⟨.label ⟨"else2"⟩, .known ⟨1, 1⟩⟩, ⟨.loadInt 2 ⟨"x5"⟩, .known ⟨1, 21⟩⟩,
        ⟨.copy ⟨"x5"⟩ ⟨"x4"⟩, .known ⟨1, 1⟩⟩, ⟨.label ⟨"if_end3"⟩, .known ⟨1, 1⟩⟩] := by
    cbv
  obtain ⟨positions, hpath⟩ := path_of_generate hparse hgenerate fun _ => false
  exact ⟨_, _, _, positions, hparse, hgenerate, rfl, hpath⟩

end Lowering

end ExprLang
