/-
  VIOLATIONS: what the validator reports, for any code whatever.

  The validator goes along the code and carries the labels and the variables that it has met.
  Here a violation is said without that, by the instructions that stand in front of the one to
  blame.  `violations` lists them in the order of the code, those of labels first, and the
  validator reports exactly this list (`problems_eq`).  Code without violations is `Valid`.

  The one thing to see is that what the validator carries along is what stands further up.  It
  never takes down a reserved variable as written, and nothing comes of that: whatever concerns a
  reserved variable is decided before it looks there.
-/
import ExprLang.Proofs.CodeShape

namespace ExprLang.Validity

/-! ## Violations by what stands further up -/

/-- The label of an instruction, if it is defined in front of it. -/
def labelViolations (front : List Instr) (i : Instr) : List Problem :=
  (i.defines.toList.filter (· ∈ definedLabels front)).map (.repeatedLabel i)

/-- The targets of an instruction that are defined nowhere in the code. -/
def targetViolations (code : List Instr) (i : Instr) : List Problem :=
  (i.targets.filter (· ∉ definedLabels code)).map (.missingTarget i)

/-- What an instruction reads that is not reserved and not written in front of it, as often as it
    reads it. -/
def readViolations (reserved : List String) (front : List Instr) (i : Instr) : List Problem :=
  (i.reads.filter fun x =>
    x.name ∉ unitName :: reserved ∧ x ∉ front.filterMap Instr.writes).map (.readBeforeWritten i)

/-- What an instruction writes that is reserved, or that is written in front of it unless it is a
    copy. -/
def writeViolations (reserved : List String) (front : List Instr) (i : Instr) : List Problem :=
  i.writes.toList.filterMap fun x =>
    if x.name ∈ unitName :: reserved then some (.overwritesReserved i x)
    else if i.isCopy = false ∧ x ∈ front.filterMap Instr.writes then some (.writtenAgain i x)
    else none

/-- What there is to say of each instruction and those in front of it, in the order of the code. -/
def alongCode (ask : List Instr → Instr → List Problem) (code : List Instr) : List Problem :=
  (code.mapIdx fun k i => ask (code.take k) i).flatten

/-- All violations: repeated labels, then missing ones, then those of variables. -/
def violations (reserved : List String) (code : List Instr) : List Problem :=
  alongCode labelViolations code ++ code.flatMap (targetViolations code)
    ++ alongCode (fun front i => readViolations reserved front i ++ writeViolations reserved front i)
      code

/-- Code that nothing is wrong with. -/
structure Valid (reserved : List String) (code : List Instr) : Prop where
  /-- No two instructions define the same label. -/
  labels : (definedLabels code).Nodup
  /-- Every jump goes to a label that is defined. -/
  targets : ∀ i ∈ code, ∀ l ∈ i.targets, l ∈ definedLabels code
  /-- What is read is reserved or written further up. -/
  reads : ∀ k i, code[k]? = some i → ∀ x ∈ i.reads,
    x.name ∈ reserved ∨ x = .unit ∨ x ∈ (code.take k).filterMap Instr.writes
  /-- Nothing reserved is written. -/
  writes : ∀ i ∈ code, ∀ x, i.writes = some x → x.name ∉ reserved ∧ x ≠ .unit
  /-- Only a copy writes what is written further up. -/
  fresh : ∀ k i, code[k]? = some i → i.isCopy = false → ∀ x, i.writes = some x →
    x ∉ (code.take k).filterMap Instr.writes

/-! ## The validator along the code -/

section

variable {reserved : List String} {code front rest : List Instr} {i : Instr}

/-- Behind some instructions, the first one is asked and then the others, which have it in front
    of them. -/
theorem flatten_mapIdx_cons (ask : List Instr → Instr → List Problem) :
    ((i :: rest).mapIdx fun k j => ask (front ++ (i :: rest).take k) j).flatten =
      ask front i ++ (rest.mapIdx fun k j => ask (front ++ [i] ++ rest.take k) j).flatten := by
  rw [List.mapIdx_cons, List.flatten_cons, List.take_zero, List.append_nil]
  simp only [List.take_succ_cons, List.append_assoc, List.singleton_append]

/-- One more label is met. -/
theorem repeatedLabels_cons (i : Instr) (rest : List Instr) {earlier : List Label}
    (hearlier : ∀ l, l ∈ earlier ↔ l ∈ definedLabels front) :
    ∃ earlier', (∀ l, l ∈ earlier' ↔ l ∈ definedLabels (front ++ [i])) ∧
      repeatedLabels earlier (i :: rest) =
        labelViolations front i ++ repeatedLabels earlier' rest := by
  have hfront : ∀ l, l ∈ definedLabels (front ++ [i]) ↔ l ∈ earlier ∨ i.defines = some l := by
    intro l
    rw [hearlier, definedLabels, List.filterMap_append, List.mem_append]
    cases hdefines : i.defines <;> simp [hdefines, definedLabels, eq_comm]
  rcases hdefines : i.defines with _ | m
  · refine ⟨earlier, fun l => ?_, ?_⟩
    · rw [hfront l, hdefines]
      simp
    · simp [repeatedLabels, labelViolations, hdefines]
  · by_cases hmet : m ∈ earlier
    · refine ⟨earlier, fun l => ?_, ?_⟩
      · rw [hfront l, hdefines, Option.some.injEq]
        constructor
        · exact .inl
        · rintro (hl | rfl)
          · exact hl
          · exact hmet
      · simp [repeatedLabels, labelViolations, hdefines, hmet, (hearlier m).1 hmet]
    · refine ⟨m :: earlier, fun l => ?_, ?_⟩
      · rw [hfront l, hdefines, Option.some.injEq, List.mem_cons, or_comm, eq_comm]
      · have hnew : m ∉ definedLabels front := fun hmem => hmet ((hearlier m).2 hmem)
        simp [repeatedLabels, labelViolations, hdefines, hmet, hnew]

/-- The labels that the validator has met are those further up. -/
theorem repeatedLabels_eq (front : List Instr) {earlier : List Label}
    (hearlier : ∀ l, l ∈ earlier ↔ l ∈ definedLabels front) :
    repeatedLabels earlier rest =
      (rest.mapIdx fun k i => labelViolations (front ++ rest.take k) i).flatten := by
  induction rest generalizing earlier front with
  | nil => rfl
  | cons i rest ih =>
    obtain ⟨earlier', hearlier', hcons⟩ := repeatedLabels_cons i rest hearlier
    rw [hcons, ih _ hearlier', flatten_mapIdx_cons labelViolations]

/-- Reads are judged by what is written further up. -/
theorem earlyReads_eq {written : List Var} (hwritten : ∀ x, x ∉ reservedVars reserved →
      (x ∈ written ↔ x ∈ front.filterMap Instr.writes)) :
    earlyReads (reservedVars reserved) written i = readViolations reserved front i := by
  show (i.reads.filter _).map _ = (i.reads.filter _).map _
  congr 1
  refine List.filter_congr fun x _ => decide_eq_decide.2 ?_
  rw [mem_reservedVars]
  refine and_congr_right fun hx => not_congr (hwritten x ?_)
  rwa [mem_reservedVars]

/-- So are writes. -/
theorem badWrite_eq_writeViolations {written : List Var}
    (hwritten : ∀ x, x ∉ reservedVars reserved →
      (x ∈ written ↔ x ∈ front.filterMap Instr.writes)) :
    badWrite (reservedVars reserved) written i = writeViolations reserved front i := by
  rcases hwrites : i.writes with _ | x
  · simp [badWrite, writeViolations, hwrites]
  · by_cases hreserved : x ∈ reservedVars reserved
    · simp only [badWrite, writeViolations, hwrites, if_pos hreserved, Option.toList_some,
        List.filterMap_cons, if_pos (mem_reservedVars.1 hreserved), List.filterMap_nil]
    · have hname : x.name ∉ unitName :: reserved := fun h => hreserved (mem_reservedVars.2 h)
      simp only [badWrite, writeViolations, hwrites, if_neg hreserved, hwritten x hreserved,
        Option.toList_some, List.filterMap_cons, if_neg hname, List.filterMap_nil]
      by_cases hagain : i.isCopy = false ∧ x ∈ front.filterMap Instr.writes
      · rw [if_pos hagain, if_pos ⟨hagain.2, by simp [hagain.1]⟩]
      · rw [if_neg hagain, if_neg]
        rintro ⟨hmem, hcopy⟩
        exact hagain ⟨by simpa using hcopy, hmem⟩

/-- The variables that the validator takes for written are those written further up, as far as
    they are not reserved. -/
theorem variableProblems_eq (front : List Instr) {written : List Var}
    (hwritten : ∀ x, x ∉ reservedVars reserved →
      (x ∈ written ↔ x ∈ front.filterMap Instr.writes)) :
    variableProblems (reservedVars reserved) written rest =
      (rest.mapIdx fun k i => readViolations reserved (front ++ rest.take k) i
        ++ writeViolations reserved (front ++ rest.take k) i).flatten := by
  induction rest generalizing written front with
  | nil => rfl
  | cons i rest ih =>
    have hrest := ih (front ++ [i]) fun x hx => mem_writtenAfter hwritten i hx
    rw [flatten_mapIdx_cons fun front i =>
      readViolations reserved front i ++ writeViolations reserved front i]
    rw [variableProblems, hrest, earlyReads_eq hwritten, badWrite_eq_writeViolations hwritten]

/-- The validator reports the violations, one for one and in their order. -/
theorem problems_eq : problems code reserved = violations reserved code := by
  have hlabels : repeatedLabels [] code = alongCode labelViolations code :=
    repeatedLabels_eq [] fun _ => Iff.rfl
  have hvariables : variableProblems (reservedVars reserved) [] code = alongCode (fun front i =>
      readViolations reserved front i ++ writeViolations reserved front i) code :=
    variableProblems_eq [] fun _ _ => Iff.rfl
  rw [problems, hlabels, hvariables]
  rfl

/-! ## No violations -/

theorem alongCode_eq_nil_iff {ask : List Instr → Instr → List Problem} :
    alongCode ask code = [] ↔ ∀ k i, code[k]? = some i → ask (code.take k) i = [] := by
  rw [alongCode, List.flatten_eq_nil_iff]
  constructor
  · intro h k i hi
    obtain ⟨hk, rfl⟩ := List.getElem?_eq_some_iff.1 hi
    exact h _ (List.mem_mapIdx.2 ⟨k, hk, rfl⟩)
  · intro h found hfound
    obtain ⟨k, hk, rfl⟩ := List.mem_mapIdx.1 hfound
    exact h k _ (List.getElem?_eq_getElem hk)

theorem labelViolations_eq_nil_iff :
    labelViolations front i = [] ↔ ∀ l, i.defines = some l → l ∉ definedLabels front := by
  cases hdefines : i.defines <;> simp [labelViolations, hdefines]

/-- One more instruction keeps labels apart if it does not define one of them again. -/
theorem nodup_definedLabels_concat (hfront : (definedLabels front).Nodup) :
    (definedLabels (front ++ [i])).Nodup ↔ labelViolations front i = [] := by
  rw [labelViolations_eq_nil_iff, definedLabels, List.filterMap_append]
  rcases hdefines : i.defines with _ | l
  · rw [List.filterMap_cons_none hdefines, List.filterMap_nil, List.append_nil]
    simpa [definedLabels] using hfront
  · rw [List.filterMap_cons_some hdefines, List.filterMap_nil, ← List.concat_eq_append,
      List.nodup_concat]
    simpa [definedLabels] using fun _ => hfront

/-- Where no label stands further up already, no two labels are the same. -/
theorem nodup_definedLabels_iff (front : List Instr) (hfront : (definedLabels front).Nodup) :
    (rest.mapIdx fun k i => labelViolations (front ++ rest.take k) i).flatten = [] ↔
      (definedLabels (front ++ rest)).Nodup := by
  induction rest generalizing front with
  | nil => simpa using hfront
  | cons i rest ih =>
    have happend : front ++ i :: rest = front ++ [i] ++ rest := List.append_cons front i rest
    rw [flatten_mapIdx_cons labelViolations, List.append_eq_nil_iff,
      ← nodup_definedLabels_concat hfront, happend]
    constructor
    · rintro ⟨hi, hrest⟩
      exact (ih _ hi).1 hrest
    · intro hall
      have hi : (definedLabels (front ++ [i])).Nodup :=
        hall.sublist ((List.sublist_append_left (front ++ [i]) rest).filterMap Instr.defines)
      exact ⟨hi, (ih _ hi).2 hall⟩

theorem targetViolations_eq_nil_iff :
    targetViolations code i = [] ↔ ∀ l ∈ i.targets, l ∈ definedLabels code := by
  rw [targetViolations, List.map_eq_nil_iff, List.filter_eq_nil_iff]
  simp

theorem name_mem_iff {x : Var} :
    x.name ∈ unitName :: reserved ↔ x.name ∈ reserved ∨ x = .unit := by
  obtain ⟨n⟩ := x
  simp [Var.unit, or_comm]

theorem readViolations_eq_nil_iff : readViolations reserved front i = [] ↔
    ∀ x ∈ i.reads, x.name ∈ reserved ∨ x = .unit ∨ x ∈ front.filterMap Instr.writes := by
  rw [readViolations, List.map_eq_nil_iff, List.filter_eq_nil_iff]
  refine forall₂_congr fun x _ => ?_
  rw [decide_eq_true_eq, name_mem_iff, ← or_assoc, ← not_or, not_not]

theorem writeViolations_eq_nil_iff : writeViolations reserved front i = [] ↔
    ∀ x, i.writes = some x → (x.name ∉ reserved ∧ x ≠ .unit) ∧
      (i.isCopy = false → x ∉ front.filterMap Instr.writes) := by
  rcases hwrites : i.writes with _ | x
  · simp [writeViolations, hwrites]
  · simp only [writeViolations, hwrites, Option.toList_some, List.filterMap_cons,
      List.filterMap_nil, Option.some.injEq, forall_eq', name_mem_iff, ne_eq, ← not_or]
    by_cases hreserved : x.name ∈ reserved ∨ x = .unit
    · simp [hreserved]
    · by_cases hagain : i.isCopy = false ∧ x ∈ front.filterMap Instr.writes
      · rw [if_neg hreserved, if_pos hagain]
        simp [hagain.1, hagain.2]
      · rw [if_neg hreserved, if_neg hagain]
        simpa [hreserved] using hagain

/-- There are no violations exactly in valid code. -/
theorem violations_eq_nil_iff : violations reserved code = [] ↔ Valid reserved code := by
  have hlabels : alongCode labelViolations code = [] ↔ (definedLabels code).Nodup :=
    nodup_definedLabels_iff [] List.nodup_nil
  rw [violations, List.append_eq_nil_iff, List.append_eq_nil_iff, hlabels, List.flatMap_eq_nil_iff,
    alongCode_eq_nil_iff]
  simp only [targetViolations_eq_nil_iff, List.append_eq_nil_iff, readViolations_eq_nil_iff,
    writeViolations_eq_nil_iff]
  constructor
  · rintro ⟨⟨hnodup, htargets⟩, hvariables⟩
    refine ⟨hnodup, htargets, fun k i hi => (hvariables k i hi).1, ?_, ?_⟩
    · intro i hi x hx
      obtain ⟨k, hk⟩ := List.mem_iff_getElem?.1 hi
      exact ((hvariables k i hk).2 x hx).1
    · intro k i hi hcopy x hx
      exact ((hvariables k i hi).2 x hx).2 hcopy
  · intro h
    refine ⟨⟨h.labels, h.targets⟩, fun k i hi => ⟨h.reads k i hi, fun x hx => ?_⟩⟩
    exact ⟨h.writes i (List.mem_of_getElem? hi) x hx, fun hcopy => h.fresh k i hi hcopy x hx⟩

/-- The validator accepts the valid code and no other, and of any other it reports the violations:
    one problem for each label that is repeated, each target that is missing, each variable each
    time that it is read too early, and each destination that must not be written. -/
theorem problems_are_violations (reserved : List String) (code : List Instr) :
    (problems code reserved = [] ↔ Valid reserved code) ∧
      problems code reserved = violations reserved code := by
  constructor
  · rw [problems_eq, violations_eq_nil_iff]
  · exact problems_eq

/-- An instruction is blamed for what it reads before it is blamed for what it writes, and only
    further down is its destination written. -/
example :
    problems [⟨.copy ⟨"x1"⟩ ⟨"x1"⟩, .of 1 1⟩, ⟨.loadInt 7 ⟨"x1"⟩, .of 1 5⟩,
        ⟨.call ⟨"x2"⟩ [⟨"x1"⟩] ⟨"+"⟩, .of 1 9⟩] ["+"] =
      [.readBeforeWritten ⟨.copy ⟨"x1"⟩ ⟨"x1"⟩, .of 1 1⟩ ⟨"x1"⟩,
        .writtenAgain ⟨.loadInt 7 ⟨"x1"⟩, .of 1 5⟩ ⟨"x1"⟩,
        .readBeforeWritten ⟨.call ⟨"x2"⟩ [⟨"x1"⟩] ⟨"+"⟩, .of 1 9⟩ ⟨"x2"⟩,
        .overwritesReserved ⟨.call ⟨"x2"⟩ [⟨"x1"⟩] ⟨"+"⟩, .of 1 9⟩ ⟨"+"⟩] := by decide

end

end ExprLang.Validity
