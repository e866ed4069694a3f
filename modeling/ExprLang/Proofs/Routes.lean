/-
  ROUTES: paths through code that is still being written.

  Every jump leads forward, so a path can be followed along the text of the code: from its front
  to its end control either executes an instruction, or has left for a label and passes over
  everything up to that label.  `Route code executed none` is control that has come to the end of
  `code`, and `Route code executed (some l)` is control that has left for the label `l`, which is
  not placed yet.  Writing one more instruction makes each route longer in one way
  (`route_append`), so routes go well with drafts.

  `path_of_forward` is what makes routes of use: in code whose labels are all different and whose
  jumps all lead forward, every path visits later and later positions, comes to the end of the
  code, and is one of the routes.  The machine takes one of the paths (`Machine.path_of_steps`), so
  in such code it cannot go on for ever (`Machine.run_of_forward`).
-/
import ExprLang.Code.Path
import ExprLang.Proofs.CodeShape
import ExprLang.Proofs.Execution

namespace ExprLang

/-! ## Routes -/

/-- Control on its way along the text of some code: what it has executed, and the label that it
    has left for. -/
inductive Route : List Instr → List Instr → Option Label → Prop
  | start : Route [] [] none
  | pass {code executed i} (h : Route code executed none) (hplain : i.targets = []) :
      Route (code ++ [i]) (executed ++ [i]) none
  | leave {code executed i l} (h : Route code executed none) (hl : l ∈ i.targets) :
      Route (code ++ [i]) (executed ++ [i]) (some l)
  | skip {code executed i l} (h : Route code executed (some l)) (hl : i.defines ≠ some l) :
      Route (code ++ [i]) executed (some l)
  | land {code executed i l} (h : Route code executed (some l)) (hl : i.defines = some l) :
      Route (code ++ [i]) (executed ++ [i]) none

section

variable {code executed : List Instr} {i : Instr} {l : Label} {heading : Option Label}

theorem route_nil (h : Route [] executed heading) : executed = [] ∧ heading = none := by
  generalize hcode : ([] : List Instr) = code at h
  cases h with
  | start => exact ⟨rfl, rfl⟩
  | pass | leave | skip | land => simp at hcode

/-- A route through one more instruction has come to it, left from it or passed over it. -/
theorem route_append (h : Route (code ++ [i]) executed heading) :
    (∃ before, executed = before ++ [i] ∧ Route code before none ∧
      (i.targets = [] ∧ heading = none ∨ ∃ l ∈ i.targets, heading = some l)) ∨
    (∃ l, heading = some l ∧ i.defines ≠ some l ∧ Route code executed (some l)) ∨
    (∃ before l, executed = before ++ [i] ∧ heading = none ∧ i.defines = some l ∧
      Route code before (some l)) := by
  generalize hcode : code ++ [i] = whole at h
  cases h with
  | start => simp at hcode
  | pass h hplain =>
    obtain ⟨rfl, hi⟩ := List.append_inj' hcode rfl
    obtain rfl := List.singleton_inj.1 hi
    exact .inl ⟨_, rfl, h, .inl ⟨hplain, rfl⟩⟩
  | leave h hl =>
    obtain ⟨rfl, hi⟩ := List.append_inj' hcode rfl
    obtain rfl := List.singleton_inj.1 hi
    exact .inl ⟨_, rfl, h, .inr ⟨_, hl, rfl⟩⟩
  | skip h hl =>
    obtain ⟨rfl, hi⟩ := List.append_inj' hcode rfl
    obtain rfl := List.singleton_inj.1 hi
    exact .inr (.inl ⟨_, rfl, hl, h⟩)
  | land h hl =>
    obtain ⟨rfl, hi⟩ := List.append_inj' hcode rfl
    obtain rfl := List.singleton_inj.1 hi
    exact .inr (.inr ⟨_, _, rfl, rfl, hl, h⟩)

/-- Control that has left for a label passes over what does not place it. -/
theorem route_take {p q : Nat} (h : Route (code.take p) executed (some l)) (hpq : p ≤ q)
    (hq : q ≤ code.length)
    (hskip : ∀ k i, p ≤ k → k < q → code[k]? = some i → i.defines ≠ some l) :
    Route (code.take q) executed (some l) := by
  induction q with
  | zero =>
    obtain rfl : p = 0 := Nat.le_zero.1 hpq
    exact h
  | succ q ih =>
    rcases Nat.lt_or_ge p (q + 1) with hlt | hge
    · have hi : code[q]? = some code[q] := List.getElem?_eq_getElem hq
      have hbefore := ih (by omega) (by omega) fun k j hk hkq => hskip k j hk (by omega)
      rw [List.take_succ_eq_append_getElem hq]
      exact hbefore.skip (hskip q _ (by omega) (by omega) hi)
    · obtain rfl : p = q + 1 := by omega
      exact h

end

/-! ## Paths are routes -/

open Machine

/-- A label behind a position is found there when no label is placed twice. -/
theorem labelPosition_of_forward {code : List Instr} {p : Nat} {l : Label}
    (hnodup : (Validity.definedLabels code).Nodup)
    (hl : l ∈ Validity.definedLabels (code.drop p)) :
    ∃ q i, p ≤ q ∧ labelPosition? code l = some q ∧ code[q]? = some i ∧ i.defines = some l ∧
      ∀ k j, k < q → code[k]? = some j → j.defines ≠ some l := by
  obtain ⟨q, hq⟩ : ∃ q, labelPosition? code l = some q := by
    obtain ⟨i, hi, hdefines⟩ := List.mem_filterMap.1 hl
    refine Option.isSome_iff_exists.1 ?_
    rw [labelPosition?, List.findIdx?_isSome, List.any_eq_true]
    exact ⟨i, (List.drop_sublist p code).subset hi, by simpa using hdefines⟩
  obtain ⟨hlt, hfound, hfirst⟩ := List.findIdx?_eq_some_iff_getElem.1 hq
  have hfirst' : ∀ k j, k < q → code[k]? = some j → j.defines ≠ some l := by
    intro k j hk hj
    obtain ⟨hkl, rfl⟩ := List.getElem?_eq_some_iff.1 hj
    simpa using hfirst k hk
  refine ⟨q, code[q], ?_, hq, List.getElem?_eq_getElem hlt, by simpa using hfound, hfirst'⟩
  -- in front of `p` the label would be placed a second time
  by_contra hbefore
  have hmem : code[q] ∈ code.take p :=
    List.mem_take_iff_getElem.2 ⟨q, by omega, rfl⟩
  rw [← List.take_append_drop p code, Validity.definedLabels, List.filterMap_append] at hnodup
  exact (List.nodup_append.1 hnodup).2.2 l
    (List.mem_filterMap.2 ⟨_, hmem, by simpa using hfound⟩) l hl rfl

/-- Control on its way along the text of some code has come to a position. -/
def Arrives (code executed : List Instr) (p : Nat) : Prop :=
  Route (code.take p) executed none ∨
    ∃ i l, code[p]? = some i ∧ i.defines = some l ∧ Route (code.take p) executed (some l)

section

variable {code executed : List Instr} {p : Nat} {i : Instr}

/-- A label is no jump. -/
theorem targets_of_defines {l : Label} (h : i.defines = some l) : i.targets = [] := by
  obtain ⟨action, loc⟩ := i
  cases action with
  | label => rfl
  | _ => contradiction

theorem take_succ_of_getElem? (hi : code[p]? = some i) :
    code.take (p + 1) = code.take p ++ [i] := by
  rw [List.take_add_one, hi, Option.toList_some]

/-- From an instruction that is no jump control comes to the next one. -/
theorem Arrives.next (h : Arrives code executed p) (hi : code[p]? = some i)
    (hplain : i.targets = []) : Arrives code (executed ++ [i]) (p + 1) := by
  refine .inl ?_
  rw [take_succ_of_getElem? hi]
  rcases h with h | ⟨j, l, hj, hl, h⟩
  · exact h.pass hplain
  · obtain rfl := Option.some.inj (hi.symm.trans hj)
    exact h.land hl

/-- From a jump control comes to a label further on. -/
theorem Arrives.jump (h : Arrives code executed p) (hi : code[p]? = some i) {l : Label}
    (hl : l ∈ i.targets) (hnodup : (Validity.definedLabels code).Nodup)
    (hforward : l ∈ Validity.definedLabels (code.drop (p + 1))) :
    ∃ q, p < q ∧ q < code.length ∧ labelPosition? code l = some q ∧
      Arrives code (executed ++ [i]) q := by
  obtain ⟨q, j, hpq, hposition, hj, hdefines, hfirst⟩ := labelPosition_of_forward hnodup hforward
  have hq : q < code.length := (List.getElem?_eq_some_iff.1 hj).1
  refine ⟨q, hpq, hq, hposition, .inr ⟨j, l, hj, hdefines, ?_⟩⟩
  have hleft : Route (code.take (p + 1)) (executed ++ [i]) (some l) := by
    rw [take_succ_of_getElem? hi]
    rcases h with h | ⟨i', l', hi', hl', -⟩
    · exact h.leave hl
    · -- what is jumped to is a label, and does not jump itself
      obtain rfl := Option.some.inj (hi.symm.trans hi')
      rw [targets_of_defines hl'] at hl
      contradiction
  exact route_take hleft hpq (Nat.le_of_lt hq) fun k i _ hk hki => hfirst k i hk hki

/-- Wherever a path goes from an instruction, it is further on. -/
theorem Arrives.follow (h : Arrives code executed p) (hi : code[p]? = some i)
    (hnodup : (Validity.definedLabels code).Nodup)
    (hforward : ∀ l ∈ i.targets, l ∈ Validity.definedLabels (code.drop (p + 1))) (first : Bool) :
    ∃ q, p < q ∧ q ≤ code.length ∧ follow? code first i p = some q ∧
      Arrives code (executed ++ [i]) q := by
  have hjump {l : Label} (hl : l ∈ i.targets) :
      ∃ q, p < q ∧ q ≤ code.length ∧ labelPosition? code l = some q ∧
        Arrives code (executed ++ [i]) q := by
    obtain ⟨q, hpq, hq, hposition, harrives⟩ := h.jump hi hl hnodup (hforward l hl)
    exact ⟨q, hpq, Nat.le_of_lt hq, hposition, harrives⟩
  have hp : p < code.length := (List.getElem?_eq_some_iff.1 hi).1
  obtain ⟨action, loc⟩ := i
  cases action with
  | jump target => exact hjump List.mem_cons_self
  | branch condition thenTarget elseTarget =>
    refine hjump ?_
    cases first <;> simp [Instr.targets]
  | _ => exact ⟨p + 1, Nat.lt_succ_self p, hp, rfl, h.next hi rfl⟩

end

/-- Behind the last instruction control has come to the end of the code. -/
theorem Arrives.finished {code executed : List Instr} (h : Arrives code executed code.length) :
    Route code executed none := by
  rcases h with h | ⟨i, l, hi, -, -⟩
  · rwa [List.take_length] at h
  · rw [List.getElem?_eq_none (Nat.le_refl _)] at hi
    contradiction

section

variable {code : List Instr} {choose : List Nat → Bool} {visited : List Nat} {p q : Nat} {i : Instr}

/-- A path ends where it runs off the end of the code. -/
theorem path_end (h : code[p]? = none) (steps : Nat) :
    path? code choose steps visited p = some visited := by
  rw [path?.eq_def]
  simp only [h]

theorem path_step (hi : code[p]? = some i) (h : follow? code (choose visited) i p = some q)
    (steps : Nat) :
    path? code choose (steps + 1) visited p = path? code choose steps (visited ++ [p]) q := by
  rw [path?.eq_def]
  simp only [hi, h, Option.bind_some]

/-- A path that has come to a position goes on to the end of the code, visits each position once
    and in order, and executes what a route executes. -/
theorem path_of_arrives (hnodup : (Validity.definedLabels code).Nodup)
    (hforward : ∀ k i, code[k]? = some i → ∀ l ∈ i.targets,
      l ∈ Validity.definedLabels (code.drop (k + 1)))
    {steps : Nat} (hsteps : code.length ≤ p + steps) (hp : p ≤ code.length)
    (hincreasing : visited.Pairwise (· < ·)) (hbelow : ∀ q ∈ visited, q < p)
    (harrives : Arrives code (instructionsAt code visited) p) :
    ∃ positions, path? code choose steps visited p = some positions ∧
      positions.Pairwise (· < ·) ∧ (∀ q ∈ positions, q < code.length) ∧
      Route code (instructionsAt code positions) none := by
  induction steps generalizing p visited with
  | zero =>
    obtain rfl : p = code.length := by omega
    have hend : code[code.length]? = none := List.getElem?_eq_none (Nat.le_refl _)
    exact ⟨visited, path_end hend _, hincreasing, hbelow, harrives.finished⟩
  | succ steps ih =>
    rcases Nat.lt_or_ge p code.length with hlt | hge
    · have hi : code[p]? = some code[p] := List.getElem?_eq_getElem hlt
      -- whichever way the path takes, it is further on than everything it has visited
      obtain ⟨q, hpq, hq, hfollow, hnext⟩ :=
        harrives.follow hi hnodup (hforward p _ hi) (choose visited)
      rw [← instructionsAt_singleton hi, ← instructionsAt_append] at hnext
      rw [path_step hi hfollow]
      refine ih (by omega) hq ?_ ?_ hnext
      · exact List.pairwise_append.2
          ⟨hincreasing, List.pairwise_singleton _ _, by simpa using hbelow⟩
      · intro r hr
        rcases List.mem_append.1 hr with hr | hr
        · exact Nat.lt_trans (hbelow r hr) hpq
        · obtain rfl := List.mem_singleton.1 hr
          exact hpq
    · obtain rfl : p = code.length := Nat.le_antisymm hp hge
      have hend : code[code.length]? = none := List.getElem?_eq_none (Nat.le_refl _)
      exact ⟨visited, path_end hend _, hincreasing, hbelow, harrives.finished⟩

/-- Every path runs off the end of the code after at most as many steps as there are
    instructions. -/
theorem path_of_forward (hnodup : (Validity.definedLabels code).Nodup)
    (hforward : ∀ k i, code[k]? = some i → ∀ l ∈ i.targets,
      l ∈ Validity.definedLabels (code.drop (k + 1))) (choose : List Nat → Bool) :
    ∃ positions, path? code choose code.length [] 0 = some positions ∧
      positions.Pairwise (· < ·) ∧ (∀ q ∈ positions, q < code.length) ∧
      Route code (instructionsAt code positions) none :=
  path_of_arrives hnodup hforward (by omega) (Nat.zero_le _) .nil (by simp)
    (.inl (by rw [List.take_zero]; exact .start))

end

/-! ## The machine takes one of the paths -/

namespace Machine

section

variable {code : List Instr} {s t : State}

/-- Every path goes on behind an instruction that writes a variable. -/
theorem follow?_of_writes {i : Instr} {dest : Var} (h : i.writes = some dest) (first : Bool)
    (p : Nat) : follow? code first i p = some (p + 1) := by
  obtain ⟨action, loc⟩ := i
  cases action with
  | jump | branch => contradiction
  | _ => rfl

/-- Whatever the machine does, it goes on where some path goes on. -/
theorem follow_of_step (h : Step code s t) :
    ∃ i first, code[s.position]? = some i ∧ follow? code first i s.position = some t.position := by
  obtain ⟨i, hi, hstep⟩ := h
  rcases step_cases hstep with ⟨dest, v, out, hwrites, rfl⟩ | ⟨first, p, hfollow, rfl⟩
  · exact ⟨i, true, hi, follow?_of_writes hwrites true _⟩
  · exact ⟨i, first, hi, hfollow⟩

/-- The choice that settles one branch after the other, in the order of the steps. -/
def byTurns (decisions : List Bool) (visited : List Nat) : Bool :=
  decisions[visited.length]?.getD true

/-- The machine goes along a path: the one whose branches are decided as it has decided them.
    Which way the path turns `later` does not matter for the part that is behind it. -/
theorem path_of_steps (h : Steps code s t) :
    ∃ decisions visited, decisions.length = visited.length ∧ ∀ later n,
      path? code (byTurns (decisions ++ later)) (visited.length + n) [] s.position =
        path? code (byTurns (decisions ++ later)) n visited t.position := by
  induction h with
  | refl => exact ⟨[], [], rfl, fun later n => by rw [List.length_nil, Nat.zero_add]⟩
  | @tail t u hsteps hstep ih =>
    obtain ⟨decisions, visited, hlength, hpath⟩ := ih
    obtain ⟨i, first, hi, hfollow⟩ := follow_of_step hstep
    refine ⟨decisions ++ [first], visited ++ [t.position], by simp [hlength], fun later n => ?_⟩
    have hchoice : byTurns (decisions ++ first :: later) visited = first := by
      simp [byTurns, ← hlength]
    have hcount : (visited ++ [t.position]).length + n = visited.length + (n + 1) := by
      rw [List.length_append, List.length_singleton]
      omega
    rw [List.append_assoc, List.singleton_append, hcount, hpath,
      path_step hi (hchoice.symm ▸ hfollow)]

/-- Once control goes along the text of the code, every step leads further on, and there are no more
    steps than instructions left. -/
theorem run_of_arrives (hnodup : (Validity.definedLabels code).Nodup)
    (hforward : ∀ k i, code[k]? = some i → ∀ l ∈ i.targets,
      l ∈ Validity.definedLabels (code.drop (k + 1)))
    {steps : Nat} (hsteps : code.length ≤ s.position + steps) {executed : List Instr}
    (harrives : Arrives code executed s.position) (u : State) :
    run code steps s ≠ .interrupted u := by
  induction steps generalizing s executed with
  | zero =>
    rw [run_end (List.getElem?_eq_none hsteps)]
    exact Ending.noConfusion
  | succ steps ih =>
    rcases hi : code[s.position]? with _ | i
    · rw [run_end hi]
      exact Ending.noConfusion
    · rcases hok : step code i.action s with trap | t
      · rw [run_trap ⟨hi, hok⟩]
        exact Ending.noConfusion
      · have hstep : Step code s t := ⟨i, hi, hok⟩
        obtain ⟨j, first, hj, hfollow⟩ := follow_of_step hstep
        obtain ⟨q, hlater, -, hfollow', hnext⟩ :=
          harrives.follow hj hnodup (hforward _ j hj) first
        obtain rfl := Option.some.inj (hfollow'.symm.trans hfollow)
        rw [run_step hstep]
        exact ih (by omega) hnext

/-- In code whose labels are all different and whose jumps all lead forward the machine stops after
    at most as many steps as there are instructions, whatever the store holds. -/
theorem run_of_forward (hnodup : (Validity.definedLabels code).Nodup)
    (hforward : ∀ k i, code[k]? = some i → ∀ l ∈ i.targets,
      l ∈ Validity.definedLabels (code.drop (k + 1))) (hstart : s.position = 0) (u : State) :
    run code code.length s ≠ .interrupted u := by
  have harrives : Arrives code [] s.position := by
    rw [hstart, Arrives, List.take_zero]
    exact .inl .start
  exact run_of_arrives hnodup hforward (by omega) harrives u

end

end Machine

end ExprLang
