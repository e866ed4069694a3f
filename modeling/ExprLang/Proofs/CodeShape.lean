/-
  CODE SHAPE: what the validator finds in code that was lowered.

  Trees are lowered one after another into one draft; `Reached` is the drafts that this leads to.
  Their code is ordered and its labels are in order, whatever the trees are, so of all that the
  validator looks for only one thing can be wrong: a copy may write a reserved variable.  That
  happens when a program assigns to a name that it has not declared.

  The validator's own checks are taken one at a time, each against the property that makes it
  find nothing, and `problems_of_ordered` puts them together.
-/
import Mathlib
import ExprLang.Proofs.LabelDiscipline

namespace ExprLang

namespace Validity

/-! ## What each check finds -/

/-- Labels that are all different are never repeated. -/
theorem repeatedLabels_eq_nil {earlier : List Label} {code : List Instr}
    (hnodup : (definedLabels code).Nodup) (hearlier : ∀ l ∈ earlier, l ∉ definedLabels code) :
    repeatedLabels earlier code = [] := by
  induction code generalizing earlier with
  | nil => rfl
  | cons i rest ih =>
    simp only [repeatedLabels]
    rcases hdefines : i.defines with _ | l
    · have hlabels : definedLabels (i :: rest) = definedLabels rest := by
        rw [definedLabels, List.filterMap_cons_none hdefines, definedLabels]
      rw [hlabels] at hnodup hearlier
      exact ih hnodup hearlier
    · have hlabels : definedLabels (i :: rest) = l :: definedLabels rest := by
        rw [definedLabels, List.filterMap_cons_some hdefines, definedLabels]
      rw [hlabels] at hnodup hearlier
      obtain ⟨hl, hrest⟩ := List.nodup_cons.1 hnodup
      have hnew : l ∉ earlier := fun hmem => hearlier l hmem List.mem_cons_self
      simp only [if_neg hnew]
      refine ih hrest ?_
      intro m hm
      rcases List.mem_cons.1 hm with rfl | hm
      · exact hl
      · exact fun hmem => hearlier m hm (List.mem_cons_of_mem _ hmem)

/-- Targets that are defined are not missed. -/
theorem missingTargets_eq_nil {defined : List Label} {i : Instr}
    (h : ∀ t ∈ i.targets, t ∈ defined) : missingTargets defined i = [] := by
  rw [missingTargets, List.filter_eq_nil_iff.2, List.map_nil]
  intro t ht
  simpa using h t ht

theorem mem_reservedVars {reserved : List String} {x : Var} :
    x ∈ reservedVars reserved ↔ x.name ∈ unitName :: reserved := by
  obtain ⟨n⟩ := x
  simp [reservedVars, Var.unit]

/-- The problem of one instruction that copies to a reserved variable. -/
def reservedCopy (reserved : List String) (i : Instr) : Option Problem :=
  match i.action with
  | .copy _ dest => if dest ∈ reservedVars reserved then some (.overwritesReserved i dest) else none
  | _ => none

/-- An instruction that keeps to the rules writes a reserved variable only as a copy. -/
theorem badWrite_eq {reserved : List String} {written : List Var} {i : Instr}
    (hwrites : ∀ x, i.writes = some x → i.isCopy = false →
      x ∉ reservedVars reserved ∧ x ∉ written) :
    badWrite (reservedVars reserved) written i = (reservedCopy reserved i).toList := by
  obtain ⟨action, loc⟩ := i
  cases action with
  | copy source dest =>
    simp only [badWrite, Instr.writes, Instr.isCopy, reservedCopy, Bool.not_true,
      Bool.false_eq_true, and_false, if_false]
    split <;> rfl
  | loadInt _ dest | loadBool _ dest | call _ _ dest =>
    obtain ⟨hreserved, hwritten⟩ := hwrites dest rfl rfl
    simp [badWrite, Instr.writes, reservedCopy, hreserved, hwritten]
  | label | jump | branch => rfl

/-- The validator's own list of written variables, as far as they are not reserved. -/
theorem mem_writtenAfter {reserved : List String} {before : List Instr} {written : List Var}
    (hwritten : ∀ x, x ∉ reservedVars reserved →
      (x ∈ written ↔ x ∈ before.filterMap Instr.writes)) (i : Instr) {x : Var}
    (hx : x ∉ reservedVars reserved) :
    x ∈ writtenAfter (reservedVars reserved) written i ↔
      x ∈ (before ++ [i]).filterMap Instr.writes := by
  rw [List.filterMap_append, List.mem_append, ← hwritten x hx]
  rcases hwrites : i.writes with _ | y
  · simp [writtenAfter, hwrites]
  · simp only [writtenAfter, hwrites, List.filterMap_cons_some hwrites, List.filterMap_nil,
      List.mem_singleton]
    split
    · rename_i hknown
      constructor
      · exact .inl
      · rintro (hmem | rfl)
        · exact hmem
        · exact hknown.resolve_left hx
    · rw [List.mem_cons, or_comm]

/-- In ordered code only copies to reserved variables are wrong. -/
theorem variableProblems_of_ordered {reserved : List String} {before rest : List Instr}
    {written : List Var} (hordered : Draft.Ordered (unitName :: reserved) (before ++ rest))
    (hwritten : ∀ x, x ∉ reservedVars reserved →
      (x ∈ written ↔ x ∈ before.filterMap Instr.writes)) :
    variableProblems (reservedVars reserved) written rest
      = rest.filterMap (reservedCopy reserved) := by
  induction rest generalizing before written with
  | nil => rfl
  | cons i rest ih =>
    obtain ⟨hreads, hwrites⟩ := hordered before.length i (by simp)
    rw [List.take_left] at hreads hwrites
    have hnoEarlyRead : earlyReads (reservedVars reserved) written i = [] := by
      rw [earlyReads, List.filter_eq_nil_iff.2, List.map_nil]
      intro x hx
      rcases hreads x hx with hreserved | hbefore
      · simp [mem_reservedVars.2 hreserved]
      · -- the validator keeps no reserved variable in its list
        by_cases hreserved : x ∈ reservedVars reserved
        · simp [hreserved]
        · simp [(hwritten x hreserved).2 hbefore]
    have hbadWrite : badWrite (reservedVars reserved) written i
        = (reservedCopy reserved i).toList := by
      refine badWrite_eq ?_
      intro x hx hcopy
      obtain ⟨hreserved, hbefore⟩ := hwrites x hx hcopy
      have hunreserved : x ∉ reservedVars reserved := fun h => hreserved (mem_reservedVars.1 h)
      exact ⟨hunreserved, fun h => hbefore ((hwritten x hunreserved).1 h)⟩
    have hordered' : Draft.Ordered (unitName :: reserved) ((before ++ [i]) ++ rest) := by
      simpa using hordered
    have hrest := ih hordered' fun x hx => mem_writtenAfter hwritten i hx
    rw [variableProblems, hnoEarlyRead, hbadWrite, hrest]
    rcases hcopy : reservedCopy reserved i with _ | p
    · rw [List.filterMap_cons_none hcopy]
      rfl
    · rw [List.filterMap_cons_some hcopy]
      rfl

/-- Ordered code whose labels are in order has no problems but copies to reserved variables. -/
theorem problems_of_ordered {reserved : List String} {code : List Instr}
    (hordered : Draft.Ordered (unitName :: reserved) code)
    (hnodup : (definedLabels code).Nodup)
    (htargets : ∀ i ∈ code, ∀ t ∈ i.targets, t ∈ definedLabels code) :
    problems code reserved = code.filterMap (reservedCopy reserved) := by
  have hrepeated : repeatedLabels [] code = [] := repeatedLabels_eq_nil hnodup (by simp)
  have hmissing : code.flatMap (missingTargets (definedLabels code)) = [] := by
    rw [List.flatMap_eq_nil_iff]
    exact fun i hi => missingTargets_eq_nil (htargets i hi)
  have hstart : Draft.Ordered (unitName :: reserved) ([] ++ code) := hordered
  have hvariables : variableProblems (reservedVars reserved) [] code
      = code.filterMap (reservedCopy reserved) :=
    variableProblems_of_ordered hstart fun _ _ => Iff.rfl
  rw [problems, hrepeated, hmissing, hvariables]
  rfl

end Validity

/-! ## Destinations of loads and calls -/

/-- The variables that loads and calls write, in the order of the code. -/
def destinations (code : List Instr) : List Var :=
  (code.filter fun i => !i.isCopy).filterMap Instr.writes

/-- In ordered code they are all different, and different from what was written before. -/
theorem Draft.Ordered.nodup_destinations {reserved : List String} {before rest : List Instr}
    (h : Draft.Ordered reserved (before ++ rest)) :
    (destinations rest).Nodup ∧ ∀ x ∈ destinations rest, x ∉ before.filterMap Instr.writes := by
  induction rest generalizing before with
  | nil => exact ⟨List.nodup_nil, by simp [destinations]⟩
  | cons i rest ih =>
    have hrest : Draft.Ordered reserved ((before ++ [i]) ++ rest) := by simpa using h
    obtain ⟨hnodup, hnew⟩ := ih hrest
    -- what is new behind the first instruction is new in front of it
    have hnewBefore : ∀ x ∈ destinations rest, x ∉ before.filterMap Instr.writes := by
      intro x hx hbefore
      refine hnew x hx ?_
      rw [List.filterMap_append]
      exact List.mem_append_left _ hbefore
    rcases hcopy : i.isCopy with _ | _
    · rcases hwrites : i.writes with _ | x
      · have hsame : destinations (i :: rest) = destinations rest := by
          simp [destinations, hcopy, hwrites]
        rw [hsame]
        exact ⟨hnodup, hnewBefore⟩
      · have hcons : destinations (i :: rest) = x :: destinations rest := by
          simp [destinations, hcopy, hwrites]
        have hx := (h before.length i (by simp)).2 x hwrites hcopy
        rw [List.take_left] at hx
        rw [hcons, List.nodup_cons]
        refine ⟨⟨fun hmem => hnew x hmem ?_, hnodup⟩, ?_⟩
        · rw [List.filterMap_append, List.filterMap_cons_some hwrites]
          simp
        · intro y hy
          rcases List.mem_cons.1 hy with rfl | hy
          · exact hx.2
          · exact hnewBefore y hy
    · -- a copy has no destination in this sense
      have hsame : destinations (i :: rest) = destinations rest := by
        simp [destinations, hcopy]
      rw [hsame]
      exact ⟨hnodup, hnewBefore⟩

/-! ## Trees lowered one after another -/

namespace Lowering

open Draft

/-- The drafts that are reached from the reserved names by lowering trees one after another. -/
inductive Reached (reserved : List String) : Draft → Prop
  | start : Reached reserved (.start reserved)
  | lowered {d d' : Draft} {e : Expr} {x : Var} (hd : Reached reserved d)
      (hlower : lower e d = .ok x d') : Reached reserved d'

/-- What is reached stays tidy, and no label is left pending. -/
theorem Reached.invariants {reserved : List String} {d : Draft} (h : Reached reserved d) :
    d.Tidy ∧ d.Labelled [] ∧ d.reserved = unitName :: reserved := by
  induction h with
  | start => exact ⟨tidy_start reserved, labelled_start reserved, rfl⟩
  | lowered hd hlower ih =>
    obtain ⟨htidy, hlabelled, hreserved⟩ := ih
    have hlowers := lowers_of_lower _ hlower
    obtain ⟨htidy', hext, -⟩ := tidy_of_lowers hlowers htidy
    exact ⟨htidy', labelled_of_lowers hlowers hlabelled, hext.reserved.trans hreserved⟩

/-- A draft without pending labels jumps only to labels that it places. -/
theorem targets_placed {d : Draft} (h : d.Labelled []) :
    ∀ i ∈ d.code.toList, ∀ t ∈ i.targets, t ∈ Validity.definedLabels d.code.toList := by
  intro i hi t ht
  obtain ⟨k, hk⟩ := List.mem_iff_getElem?.1 hi
  have hbehind := (h.forward k i hk t ht).resolve_left (by simp)
  exact ((List.drop_sublist _ _).filterMap Instr.defines).subset hbehind

/-- The shape of lowered code. -/
structure Shaped (reserved : List String) (code : List Instr) : Prop where
  /-- No label is defined twice. -/
  labels : (Validity.definedLabels code).Nodup
  /-- Every jump goes to a label that is defined. -/
  targets : ∀ i ∈ code, ∀ t ∈ i.targets, t ∈ Validity.definedLabels code
  /-- Loads and calls write variables that are all different. -/
  destinations : (destinations code).Nodup
  /-- They are not reserved either, nor written earlier, and what is read is one of the two. -/
  ordered : Ordered (unitName :: reserved) code
  /-- The validator finds exactly the copies to reserved variables, in their order. -/
  problems : Validity.problems code reserved = code.filterMap (Validity.reservedCopy reserved)

theorem shaped_of_invariants {reserved : List String} {d : Draft} (htidy : d.Tidy)
    (hlabelled : d.Labelled []) (hreserved : d.reserved = unitName :: reserved) :
    Shaped reserved d.code.toList := by
  have hordered := htidy.ordered
  rw [hreserved] at hordered
  have hstart : Ordered (unitName :: reserved) ([] ++ d.code.toList) := hordered
  have htargets := targets_placed hlabelled
  exact {
    labels := hlabelled.nodup
    targets := htargets
    destinations := hstart.nodup_destinations.1
    ordered := hordered
    problems := Validity.problems_of_ordered hordered hlabelled.nodup htargets }

/-- Code has the shape whatever trees it was lowered from and whatever names are reserved. -/
theorem shaped_of_reached {reserved : List String} {d : Draft} (h : Reached reserved d) :
    Shaped reserved d.code.toList := by
  obtain ⟨htidy, hlabelled, hreserved⟩ := h.invariants
  exact shaped_of_invariants htidy hlabelled hreserved

/-- An assignment to the reserved name `x1`: the load skips it and the copy overwrites it. -/
theorem shaped_of_reached_assignment :
    ∃ d, Reached ["x1"] d ∧
      d.code.toList = [⟨.loadInt 7 ⟨"x2"⟩, .synthetic⟩, ⟨.copy ⟨"x2"⟩ ⟨"x1"⟩, .synthetic⟩] ∧
      Shaped ["x1"] d.code.toList := by
  have hlowers : Lowers (.binary .synthetic "=" (.name .synthetic "x1") (.int .synthetic 7))
      (.start ["x1"]) ⟨"x1"⟩ _ := .assign rfl .int
  have hreached : Reached ["x1"] _ := .lowered .start (lower_of_lowers hlowers)
  exact ⟨_, hreached, by cbv, shaped_of_reached hreached⟩

/-! ## Whole programs -/

/-- The draft of a program satisfies the invariants too; the last call reads what is available. -/
theorem invariants_of_lowersProgram {reserved : List String} {program : Expr} {ty : Ty} {d : Draft}
    (h : LowersProgram program ty (.start reserved) d) :
    d.Tidy ∧ d.Labelled [] ∧ d.reserved = unitName :: reserved := by
  cases h with
  | silent _ hprogram =>
    obtain ⟨htidy, hext, -⟩ := tidy_of_lowers hprogram (tidy_start reserved)
    exact ⟨htidy, labelled_of_lowers hprogram (labelled_start reserved), hext.reserved⟩
  | prints _ hprogram hcallee =>
    obtain ⟨htidy, hext, hx⟩ := tidy_of_lowers hprogram (tidy_start reserved)
    have hlabelled := labelled_of_lowers hprogram (labelled_start reserved)
    have hread := htidy.available_of_lookup hcallee
    exact ⟨htidy.emitNew_call hread (by simpa using hx), hlabelled.emitNew rfl rfl, hext.reserved⟩

theorem shaped_of_lowersProgram {reserved : List String} {program : Expr} {ty : Ty} {d : Draft}
    (h : LowersProgram program ty (.start reserved) d) : Shaped reserved d.code.toList := by
  obtain ⟨htidy, hlabelled, hreserved⟩ := invariants_of_lowersProgram h
  exact shaped_of_invariants htidy hlabelled hreserved

end Lowering

end ExprLang
