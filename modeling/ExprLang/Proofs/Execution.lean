/-
  EXECUTION: the machine on its way through code that was written in drafts.

  `step_cases` is what one instruction can do, and `Steps` is the machine executing some of them.
  `ends_of_finished` and `ends_of_stuck` say what `run` makes of it: given enough steps it ends
  where they lead, and given fewer it is interrupted.

  While code is written nobody knows what will stand behind it.  So `Part code d` says of a draft
  only that the final code begins with it, and `behind d` is the machine that has come to its end.
  Writing one more instruction then means executing one more (`steps_write`, `steps_label`), and
  a jump leads to wherever the label is placed, be it later (`steps_jump`, `steps_branch`).  That
  place is unique because no label is placed twice.
-/
import Mathlib.Data.List.Forall2
import ExprLang.Code.Machine
import ExprLang.Code.Path
import ExprLang.Proofs.BuiltinWrites

namespace ExprLang

namespace Machine

/-! ## Many steps -/

/-- One instruction is executed. -/
def Step (code : List Instr) (s t : State) : Prop :=
  ∃ i, code[s.position]? = some i ∧ step code i.action s = .ok t

/-- Some instructions are executed one after another. -/
inductive Steps (code : List Instr) (s : State) : State → Prop
  | refl : Steps code s s
  | tail {t u : State} (hsteps : Steps code s t) (hstep : Step code t u) : Steps code s u

/-- A run ends in one way, given enough steps, and is interrupted when it is given fewer. -/
def Ends (code : List Instr) (s : State) (ending : Ending) : Prop :=
  ∃ enough, (∀ n, enough ≤ n → run code n s = ending) ∧
    ∀ n, n < enough → ∃ t, run code n s = .interrupted t

/-- The next instruction cannot be executed. -/
def Stuck (code : List Instr) (trap : Trap) (i : Instr) (s : State) : Prop :=
  code[s.position]? = some i ∧ step code i.action s = .error trap

section

variable {code : List Instr} {s t : State}

/-! ### What one instruction can do -/

/-- A jump goes on at the place of its label, and changes nothing else. -/
theorem jump_eq_ok {l : Label} (h : s.jump code l = .ok t) :
    ∃ p, labelPosition? code l = some p ∧ t = { s with position := p } := by
  unfold State.jump at h
  split at h
  · rename_i p hp
    exact ⟨p, hp, (Except.ok.inj h).symm⟩
  · contradiction

/-- An instruction that can be executed writes its variable, and perhaps a line, and the next one
    follows; or control goes where the instruction leads, and nothing else happens. -/
theorem step_cases {i : Instr} (h : step code i.action s = .ok t) :
    (∃ dest v out, i.writes = some dest ∧ t = { s with output := out }.write dest v) ∨
      ∃ first p, follow? code first i s.position = some p ∧ t = { s with position := p } := by
  obtain ⟨action, loc⟩ := i
  cases action with
  | loadInt n dest | loadBool b dest =>
    exact .inl ⟨dest, _, s.output, rfl, (Except.ok.inj h).symm⟩
  | copy source dest =>
    rcases hvalue : s.value source with trap | v <;> simp only [step, hvalue] at h
    · contradiction
    · exact .inl ⟨dest, v, s.output, rfl, (Except.ok.inj h).symm⟩
  | call callee arguments dest =>
    simp only [step] at h
    rcases hcallee : s.value callee with trap | f <;> rw [hcallee] at h
    · contradiction
    · cases f with
      | builtin b =>
        rcases harguments : s.values arguments with trap | args
        · simp only [bind, Except.bind, harguments] at h
          contradiction
        · rcases hresult : b.apply args s.output with cause | ⟨v, out⟩ <;>
            simp only [bind, Except.bind, harguments, hresult] at h
          · contradiction
          · exact .inl ⟨dest, v, out, rfl, (Except.ok.inj h).symm⟩
      | _ => contradiction
  | label l => exact .inr ⟨true, _, rfl, (Except.ok.inj h).symm⟩
  | jump target =>
    obtain ⟨p, hp, rfl⟩ := jump_eq_ok h
    exact .inr ⟨true, p, hp, rfl⟩
  | branch condition thenTarget elseTarget =>
    simp only [step] at h
    rcases hcondition : s.value condition with trap | v <;> rw [hcondition] at h
    · contradiction
    · cases v with
      | bool holds =>
        cases holds <;> obtain ⟨p, hp, rfl⟩ := jump_eq_ok h
        · exact .inr ⟨false, p, hp, rfl⟩
        · exact .inr ⟨true, p, hp, rfl⟩
      | _ => contradiction

/-! ### One step of a run -/

/-- Behind the last instruction the machine has finished, with any fuel. -/
theorem run_end (h : code[s.position]? = none) (n : Nat) : run code n s = .finished s := by
  rw [run.eq_def]
  simp only [h]

/-- Without fuel a machine in the middle of the code is interrupted. -/
theorem run_zero {i : Instr} (h : code[s.position]? = some i) :
    run code 0 s = .interrupted s := by
  rw [run.eq_def]
  simp only [h]

/-- A step takes one unit of fuel. -/
theorem run_step (h : Step code s t) (n : Nat) : run code (n + 1) s = run code n t := by
  obtain ⟨i, hi, hok⟩ := h
  rw [run.eq_def]
  simp only [hi, hok]

/-- A machine that cannot take its step is trapped there. -/
theorem run_trap {trap : Trap} {i : Instr} (h : Stuck code trap i s) (n : Nat) :
    run code (n + 1) s = .trapped trap i s := by
  obtain ⟨hi, htrap⟩ := h
  rw [run.eq_def]
  simp only [hi, htrap]

/-! ### Whole runs -/

/-- A run goes through the steps one by one, for as long as it is allowed to. -/
theorem run_of_steps (h : Steps code s t) :
    ∃ k, (∀ n, run code (k + n) s = run code n t) ∧
      ∀ n, n < k → ∃ u, run code n s = .interrupted u := by
  induction h with
  | refl =>
    refine ⟨0, fun n => ?_, fun n hn => absurd hn (Nat.not_lt_zero n)⟩
    rw [Nat.zero_add]
  | @tail t u hsteps hstep ih =>
    obtain ⟨k, hrun, hshort⟩ := ih
    refine ⟨k + 1, fun n => ?_, fun n hn => ?_⟩
    · have hcount : k + 1 + n = k + (n + 1) := by omega
      rw [hcount, hrun, run_step hstep]
    · rcases Nat.lt_or_ge n k with hlt | hge
      · exact hshort n hlt
      · -- one step short, the run is interrupted in front of the last instruction
        have hlast : n = k + 0 := by omega
        obtain ⟨i, hi, -⟩ := hstep
        exact ⟨t, by rw [hlast, hrun, run_zero hi]⟩

/-- A run that comes to the end of the code is finished. -/
theorem ends_of_finished (h : Steps code s t) (hend : code[t.position]? = none) :
    Ends code s (.finished t) := by
  obtain ⟨k, hrun, hshort⟩ := run_of_steps h
  refine ⟨k, fun n hn => ?_, hshort⟩
  have hcount : n = k + (n - k) := by omega
  rw [hcount, hrun, run_end hend]

/-- A run that comes to an instruction that cannot be executed is trapped there. -/
theorem ends_of_stuck (h : Steps code s t) {trap : Trap} {i : Instr}
    (hstuck : Stuck code trap i t) : Ends code s (.trapped trap i t) := by
  obtain ⟨k, hrun, hshort⟩ := run_of_steps h
  refine ⟨k + 1, fun n hn => ?_, fun n hn => ?_⟩
  · have hcount : n = k + ((n - k - 1) + 1) := by omega
    rw [hcount, hrun, run_trap hstuck]
  · rcases Nat.lt_or_ge n k with hlt | hge
    · exact hshort n hlt
    · have hlast : n = k + 0 := by omega
      exact ⟨t, by rw [hlast, hrun, run_zero hstuck.1]⟩

end

/-! ## The store -/

section

variable (σ : Store) (x : Var) (v : Value)

/-- A variable that was set holds the new value. -/
@[simp] theorem Store.set_self : σ.set x v x = some v := if_pos rfl

/-- Setting a variable leaves the others alone. -/
theorem Store.set_of_ne {y : Var} (h : y ≠ x) : σ.set x v y = σ y := if_neg h

end

end Machine

/-! ## Drafts of the code that is executed -/

open Machine

namespace Draft

/-- The code begins with a draft that is clean, and no label is placed in it twice. -/
structure Part (code : List Instr) (d : Draft) : Prop where
  begins : d.code.toList <+: code
  clean : d.Clean
  labels : (Validity.definedLabels code).Nodup

/-- The machine when it has come to the end of a draft. -/
def behind (d : Draft) (σ : Store) (out : Output) : State := ⟨d.code.toList.length, σ, out⟩

section

variable {code : List Instr} {d d' t : Draft} {action : Action} {loc loc' : Location} {l : Label}

/-- Code that begins with a draft begins with each earlier draft. -/
theorem Part.earlier (h : Part code d') (hext : d.Extends d') : Part code d where
  begins := hext.code.trans h.begins
  clean x hx := by
    have hname := h.clean x ((hext.code.filterMap Instr.writes).subset hx)
    rwa [hext.reserved] at hname
  labels := h.labels

/-- In particular with the draft in front of the last instruction. -/
theorem Part.of_emit (h : Part code (d.emit action loc)) : Part code d :=
  h.earlier (extends_emit d action loc)

/-- The same where the instruction writes a new variable. -/
theorem Part.of_emitNew {action : Var → Action} (h : Part code (d.emitNew action loc)) :
    Part code d :=
  h.earlier (extends_emitNew d action loc)

/-- A declaration writes no code. -/
theorem Part.of_declare {n : String} {x : Var} (h : Part code (d.declare n x)) : Part code d :=
  ⟨h.begins, h.clean, h.labels⟩

/-- The code has the last instruction of a draft where the draft has it. -/
theorem Part.instr (h : Part code (d.emit action loc)) :
    code[d.code.toList.length]? = some ⟨action, loc⟩ := by
  obtain ⟨rest, hcode⟩ := h.begins
  rw [code_emit] at hcode
  rw [← hcode, List.append_assoc, List.getElem?_append_right (Nat.le_refl _), Nat.sub_self]
  rfl

/-- A label is found where it was placed. -/
theorem Part.labelPosition (h : Part code (d.emit (.label l) loc)) :
    labelPosition? code l = some d.code.toList.length := by
  obtain ⟨rest, hcode⟩ := h.begins
  have hlabels := h.labels
  rw [code_emit, List.append_assoc] at hcode
  rw [← hcode, Validity.definedLabels, List.filterMap_append] at hlabels
  -- it was not placed before, or it would be there twice
  have hnew : ∀ i ∈ d.code.toList, ¬i.defines = some l := by
    intro i hi hdefines
    have hbefore : l ∈ d.code.toList.filterMap Instr.defines :=
      List.mem_filterMap.2 ⟨i, hi, hdefines⟩
    have hhere : l ∈ (([⟨.label l, loc⟩] : List Instr) ++ rest).filterMap Instr.defines :=
      List.mem_filterMap.2 ⟨⟨.label l, loc⟩, by simp, rfl⟩
    exact (List.nodup_append.1 hlabels).2.2 l hbefore l hhere rfl
  have hnone : d.code.toList.findIdx? (fun i => i.defines = some l) = none := by
    rw [List.findIdx?_eq_none_iff]
    intro i hi
    simpa using hnew i hi
  rw [← hcode, labelPosition?, List.findIdx?_append, hnone]
  simp [List.findIdx?_cons, Instr.defines]

end

section

variable {code : List Instr} {start : State} {d d' t : Draft} {σ : Store} {out : Output}
  {action : Action} {loc loc' : Location} {x y : Var} {v : Value} {l : Label}

/-- Reading a variable that holds a value succeeds. -/
theorem value_behind (hx : σ x = some v) : (d.behind σ out).value x = .ok v := by
  simp only [State.value, behind, hx]

/-- An instruction that writes a variable. -/
theorem steps_write (hpart : Part code (d.emit action loc))
    (hsteps : Steps code start (d.behind σ out)) {out' : Output}
    (hstep : step code action (d.behind σ out) =
      .ok (State.write { d.behind σ out with output := out' } y v)) :
    Steps code start ((d.emit action loc).behind (σ.set y v) out') := by
  have hposition : (d.emit action loc).behind (σ.set y v) out' =
      State.write { d.behind σ out with output := out' } y v := by
    simp only [behind, State.write, code_emit, List.length_append, List.length_singleton]
  rw [hposition]
  exact hsteps.tail ⟨_, hpart.instr, hstep⟩

/-- A copy writes the value of its source. -/
theorem step_copy (hx : σ x = some v) :
    step code (.copy x y) (d.behind σ out) = .ok ((d.behind σ out).write y v) := by
  rw [step, value_behind hx]
  rfl

/-- A copy of a variable that holds a value. -/
theorem steps_copy (hpart : Part code (d.emit (.copy x y) loc))
    (hsteps : Steps code start (d.behind σ out)) (hx : σ x = some v) :
    Steps code start ((d.emit (.copy x y) loc).behind (σ.set y v) out) :=
  steps_write hpart hsteps (step_copy hx)

/-- A label does nothing. -/
theorem steps_label (hpart : Part code (d.emit (.label l) loc))
    (hsteps : Steps code start (d.behind σ out)) :
    Steps code start ((d.emit (.label l) loc).behind σ out) := by
  have hposition : (d.emit (.label l) loc).behind σ out =
      { d.behind σ out with position := (d.behind σ out).position + 1 } := by
    simp only [behind, code_emit, List.length_append, List.length_singleton]
  rw [hposition]
  exact hsteps.tail ⟨_, hpart.instr, rfl⟩

/-- An instruction that jumps to a label leads behind the place where the label is written. -/
theorem steps_to (hpart : Part code (d.emit action loc))
    (htarget : Part code (t.emit (.label l) loc'))
    (hsteps : Steps code start (d.behind σ out))
    (hstep : step code action (d.behind σ out) = (d.behind σ out).jump code l) :
    Steps code start ((t.emit (.label l) loc').behind σ out) := by
  refine steps_label htarget (hsteps.tail ⟨_, hpart.instr, hstep.trans ?_⟩)
  rw [State.jump, htarget.labelPosition]
  rfl

/-- A jump leads behind the place of its label, wherever that is. -/
theorem steps_jump (hpart : Part code (d.emit (.jump l) loc))
    (htarget : Part code (t.emit (.label l) loc'))
    (hsteps : Steps code start (d.behind σ out)) :
    Steps code start ((t.emit (.label l) loc').behind σ out) :=
  steps_to hpart htarget hsteps rfl

/-- A branch jumps to one of its two labels. -/
theorem steps_branch {holds : Bool} {l' l'' : Label}
    (hpart : Part code (d.emit (.branch x l l') loc))
    (htarget : Part code (t.emit (.label l'') loc'))
    (hsteps : Steps code start (d.behind σ out)) (hx : σ x = some (.bool holds))
    (hchosen : l'' = if holds = true then l else l') :
    Steps code start ((t.emit (.label l'') loc').behind σ out) := by
  refine steps_to hpart htarget hsteps ?_
  rw [step, value_behind hx, hchosen]
  cases holds <;> rfl

/-- `and` and `or` skip their right side when the left one decides. -/
theorem steps_logicBranch {op : String} {holds : Bool} {rightLabel skipLabel : Label}
    (hpart : Part code (d.emit (Lowering.logicBranch op x rightLabel skipLabel) loc))
    (htarget : Part code (t.emit (.label l) loc'))
    (hsteps : Steps code start (d.behind σ out)) (hx : σ x = some (.bool holds))
    (hchosen : l = if holds = decide (op = "or") then skipLabel else rightLabel) :
    Steps code start ((t.emit (.label l) loc').behind σ out) := by
  unfold Lowering.logicBranch at hpart
  split at hpart
  · rename_i hor
    refine steps_branch hpart htarget hsteps hx ?_
    rw [hchosen, decide_eq_true hor]
  · rename_i hor
    refine steps_branch hpart htarget hsteps hx ?_
    rw [hchosen, decide_eq_false hor]
    cases holds <;> rfl

/-- The values of some variables. -/
theorem values_behind {xs : List Var} {args : List Value}
    (h : List.Forall₂ (fun x v => σ x = some v) xs args) :
    (d.behind σ out).values xs = .ok args := by
  induction h with
  | nil => rfl
  | @cons x v xs args hx _ ih =>
    rw [State.values, value_behind hx, ih]
    rfl

/-- A call applies the builtin that its callee holds. -/
theorem step_call {callee : Var} {xs : List Var} {b : Builtin} {args : List Value}
    (hcallee : σ callee = some (.builtin b))
    (hargs : List.Forall₂ (fun x v => σ x = some v) xs args) :
    step code (.call callee xs y) (d.behind σ out) =
      match b.apply args out with
      | .ok (v, out') => .ok (State.write { d.behind σ out with output := out' } y v)
      | .error cause => .error (.fault cause) := by
  rw [step, value_behind hcallee]
  show ((d.behind σ out).values xs >>= fun args => _) = _
  rw [values_behind hargs]
  show (match b.apply args out with | .ok (v, out') => _ | .error cause => _) = _
  rcases b.apply args out with cause | ⟨v, out'⟩ <;> rfl

end

end Draft

end ExprLang
