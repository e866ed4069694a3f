/-
  SCOPE DISCIPLINE: what is done inside a scope, as it is seen from outside.

  Between the opening of a scope and its closing there may be any steps, and more scopes may be
  opened and closed on the way.  When the scope is closed again the scopes around it bind the names
  that they have bound before.  A name has changed only if it was written to while no scope opened
  since then had a binding of its own for it; the last such write counts.

  A chain is cut at the level where the scope was opened: `upTo` is the part around it,
  `definedSince` asks for bindings behind the cut.  Shadowing starts and stops as the steps go on,
  so the cut is followed step by step (`lookup_upTo_step`, `sameNames_upTo_step`), and the run
  follows by induction (`upTo_after`).
-/
import Mathlib.Logic.Function.Iterate
import ExprLang.Scopes.Steps
import ExprLang.Proofs.AskedNames

namespace ExprLang.Scopes

variable {α : Type} {s t : Scopes α} {d : Nat} {n m : String}

/-! ## Steps between opening and closing -/

/-- How many scopes are open behind a step; none of those that were open before the first one may
    be closed. -/
def Step.opened? (opened : Nat) : Step α → Option Nat
  | .enter => some (opened + 1)
  | .leave =>
    match opened with
    | 0 => none
    | k + 1 => some k
  | _ => some opened

/-- Steps that close what they open, and nothing else. -/
def Nested (steps : List (Step α)) : Prop := steps.foldlM Step.opened? 0 = some 0

instance (steps : List (Step α)) : Decidable (Nested steps) :=
  inferInstanceAs (Decidable (_ = _))

/-- Whether a scope that lies behind the first `d + 1` ones binds a name. -/
def definedSince (d : Nat) (name : String) : Scopes α → Bool
  | .root _ => false
  | .child frame rest =>
    decide (d ≤ rest.depth) && ((frame.get? name).isSome || rest.definedSince d name)

/-- What a step writes over the nearest binding of a name. -/
def Step.written? (name : String) (scopes : Scopes α) : Step α → Option α
  | .set n a => if n = name ∧ scopes.contains name = true then some a else none
  | .update n f => if n = name then (scopes.lookup name).map f else none
  | _ => none

/-- What a step writes to a name that no scope behind the first `d + 1` ones binds. -/
def Step.outward? (d : Nat) (name : String) (scopes : Scopes α) (step : Step α) : Option α :=
  if scopes.definedSince d name then none else step.written? name scopes

/-- The last value that is written outward to a name. -/
def lastOutward? (d : Nat) (name : String) (scopes : Scopes α) : List (Step α) → Option α
  | [] => none
  | step :: rest =>
    (lastOutward? d name (scopes.step step).2 rest).or (step.outward? d name scopes)

/-! ## Steps as operations -/

/-- A set succeeds exactly when the name is bound; otherwise the value comes back. -/
theorem step_set (s : Scopes α) (n : String) (a : α) :
    s.step (.set n a) =
      (if s.contains n then .stored else .back a, s.modify n fun _ => a) := by
  rcases hbound : s.lookup n with _ | b
  · simp [step, set_eq, contains, hbound, modify_of_lookup_none _ hbound]
  · simp [step, set_eq, contains, hbound]

/-- Updating a name answers with the new value, if there was one. -/
theorem step_update (s : Scopes α) (n : String) (f : α → α) :
    s.step (.update n f) = (.updated ((s.lookup n).map f), s.modify n f) := by
  rcases hbound : s.lookup n with _ | b
  · simp [step, update?_eq, hbound, modify_of_lookup_none _ hbound]
  · simp [step, update?_eq, hbound]

/-- Setting a name writes it only where it is bound. -/
theorem Step.written?_set (s : Scopes α) (n m : String) (a : α) :
    (Step.set n a).written? m s = if n = m then (s.lookup m).map fun _ => a else none := by
  rcases hbound : s.lookup m with _ | b <;> simp [written?, contains, hbound]

/-- A step leaves as many scopes open as it should. -/
theorem depth_step {step : Step α} {opened opened' : Nat} (hs : s.depth = d + 1 + opened)
    (hopened : step.opened? opened = some opened') :
    (s.step step).2.depth = d + 1 + opened' := by
  cases step with
  | define n a =>
    obtain rfl := Option.some.inj hopened
    exact (depth_define s n a).trans hs
  | set n a =>
    obtain rfl := Option.some.inj hopened
    rw [step_set, depth_modify, hs]
  | update n f =>
    obtain rfl := Option.some.inj hopened
    rw [step_update, depth_modify, hs]
  | lookup n =>
    obtain rfl := Option.some.inj hopened
    exact hs
  | enter =>
    obtain rfl := Option.some.inj hopened
    simp only [Scopes.step, depth_push, hs]
    omega
  | leave =>
    cases opened with
    | zero => contradiction
    | succ k =>
      obtain rfl := Option.some.inj hopened
      have hpop := depth_pop (s := s) (by omega)
      simp only [Scopes.step]
      omega

/-! ## Cutting a chain -/

/-- The first `d + 1` scopes of a chain. -/
def upTo (d : Nat) : Scopes α → Scopes α
  | .root frame => .root frame
  | .child frame rest => if d ≤ rest.depth then rest.upTo d else .child frame rest

/-- A chain that is short enough is not cut. -/
theorem upTo_self (h : s.depth ≤ d) : s.upTo d = s := by
  cases s with
  | root frame => rfl
  | child frame rest =>
    simp only [depth] at h
    rw [upTo, if_neg (by omega)]

/-- Cutting takes away a scope that was entered. -/
theorem upTo_push (h : d ≤ s.depth) : s.push.upTo d = s.upTo d := by
  rw [push, upTo, if_pos h]

/-- Cutting does not see that a scope was left further in. -/
theorem upTo_pop (h : d < s.depth) : s.pop.upTo d = s.upTo d := by
  cases s with
  | root frame => rfl
  | child frame rest =>
    simp only [depth] at h
    rw [pop, upTo, if_pos (by omega)]

/-- What the innermost scope binds is behind the cut. -/
theorem upTo_define (h : d < s.depth) (n : String) (a : α) : (s.define n a).upTo d = s.upTo d := by
  rw [← upTo_pop h, ← upTo_pop (s := s.define n a) (by rwa [depth_define]),
    pop_define (Nat.zero_lt_of_lt h)]

/-- A write goes through the cut unless it finds a binding behind it. -/
theorem upTo_modify (s : Scopes α) (d : Nat) (n : String) (f : α → α) :
    (s.modify n f).upTo d =
      if s.definedSince d n then s.upTo d else (s.upTo d).modify n f := by
  induction s with
  | root frame =>
    simp only [modify, definedSince, upTo]
    cases frame.get? n <;> rfl
  | child frame rest ih =>
    by_cases hd : d ≤ rest.depth
    · rcases hbound : frame.get? n with _ | a
      · simp [modify, upTo, definedSince, hbound, hd, ih]
      · simp [modify, upTo, definedSince, hbound, hd]
    · have hnot : (child frame rest).definedSince d n = false := by simp [definedSince, hd]
      have hself : ((child frame rest).modify n f).depth ≤ d := by
        rw [depth_modify, depth]
        omega
      rw [upTo_self hself, hnot, upTo, if_neg hd]
      rfl

/-- A name that is not bound behind the cut is looked up in front of it. -/
theorem lookup_upTo (h : s.definedSince d n = false) : (s.upTo d).lookup n = s.lookup n := by
  induction s with
  | root frame => rfl
  | child frame rest ih =>
    by_cases hd : d ≤ rest.depth
    · simp only [definedSince, hd, decide_true, Bool.true_and, Bool.or_eq_false_iff,
        Option.isSome_eq_false_iff, Option.isNone_iff_eq_none] at h
      rw [upTo, if_pos hd, ih h.2, lookup, h.1]
    · rw [upTo, if_neg hd]

/-! ## One step -/

/-- In front of the cut only a write outward makes a difference. -/
theorem lookup_upTo_modify (s : Scopes α) (d : Nat) (n m : String) (f : α → α) :
    ((s.modify n f).upTo d).lookup m =
      (if s.definedSince d m then none
        else if n = m then (s.lookup m).map f else none).or ((s.upTo d).lookup m) := by
  rw [upTo_modify]
  by_cases hname : n = m
  · subst hname
    rcases hsince : s.definedSince d n with _ | _
    · simp only [Bool.false_eq_true, if_false, if_true, lookup_modify, lookup_upTo hsince]
      cases s.lookup n <;> rfl
    · simp
  · split <;> simp [lookup_modify, hname]

/-- A step made further in is seen from outside only by what it writes there. -/
theorem lookup_upTo_step (hs : d < s.depth) (step : Step α) (n : String) :
    ((s.step step).2.upTo d).lookup n =
      (step.outward? d n s).or ((s.upTo d).lookup n) := by
  have hidle : step.written? n s = none → (s.step step).2.upTo d = s.upTo d →
      ((s.step step).2.upTo d).lookup n = (step.outward? d n s).or ((s.upTo d).lookup n) := by
    intro hwritten hsame
    rw [hsame, Step.outward?, hwritten, ite_self, Option.none_or]
  cases step with
  | define m a => exact hidle rfl (upTo_define hs m a)
  | set m a => rw [step_set, lookup_upTo_modify, Step.outward?, Step.written?_set]
  | update m f => rw [step_update, lookup_upTo_modify, Step.outward?, Step.written?]
  | lookup m => exact hidle rfl rfl
  | enter => exact hidle rfl (upTo_push (Nat.le_of_lt hs))
  | leave => exact hidle rfl (upTo_pop hs)

/-- No step binds anything in front of the cut. -/
theorem sameNames_upTo_step (hs : d < s.depth) (step : Step α) :
    (s.upTo d).SameNames ((s.step step).2.upTo d) := by
  have hmodify : ∀ m (f : α → α), (s.upTo d).SameNames ((s.modify m f).upTo d) := by
    intro m f
    rw [upTo_modify]
    split
    · exact .refl _
    · exact .modify _ _ _
  cases step with
  | define m a => exact upTo_define hs m a ▸ .refl _
  | set m a => exact step_set s m a ▸ hmodify m _
  | update m f => exact step_update s m f ▸ hmodify m f
  | lookup m => exact .refl _
  | enter => exact upTo_push (Nat.le_of_lt hs) ▸ .refl _
  | leave => exact upTo_pop hs ▸ .refl _

/-! ## Runs -/

/-- In front of the cut a run changes what its last writes outward have changed. -/
theorem upTo_after {steps : List (Step α)} {opened opened' : Nat}
    (hs : s.depth = d + 1 + opened) (hsteps : steps.foldlM Step.opened? opened = some opened') :
    (s.after steps).depth = d + 1 + opened' ∧
      (s.upTo d).SameNames ((s.after steps).upTo d) ∧
      ∀ n, ((s.after steps).upTo d).lookup n =
        (lastOutward? d n s steps).or ((s.upTo d).lookup n) := by
  induction steps generalizing s opened with
  | nil =>
    obtain rfl := Option.some.inj hsteps
    exact ⟨hs, .refl _, fun n => rfl⟩
  | cons step rest ih =>
    rw [List.foldlM_cons] at hsteps
    obtain ⟨opened₁, hopened, hrest⟩ := Option.bind_eq_some_iff.1 hsteps
    have hinside : d < s.depth := by omega
    obtain ⟨hdepth, hsame, hlookup⟩ := ih (depth_step hs hopened) hrest
    refine ⟨hdepth, (sameNames_upTo_step hinside step).trans hsame, fun n => ?_⟩
    rw [lastOutward?, Option.or_assoc, ← lookup_upTo_step hinside step n]
    exact hlookup n

/-! ## Around the scope -/

/-- A name is defined here if the innermost scope binds it. -/
theorem definedHere_eq (s : Scopes α) (n : String) :
    s.definedHere n = (s.binding s.depth n).isSome := by
  cases s <;> simp [definedHere, inner, binding, depth]

/-- The outermost scope cannot be left. -/
theorem pop_of_depth_eq_zero (h : s.depth = 0) : s.pop = s := by
  cases s with
  | root frame => rfl
  | child frame rest => exact absurd h (Nat.succ_ne_zero rest.depth)

/-- Chains with the same names define the same ones here. -/
theorem SameNames.definedHere (h : s.SameNames t) (n : String) :
    t.definedHere n = s.definedHere n := by
  rw [definedHere_eq, definedHere_eq, h.depth, h.bound]

/-- The scopes around bind the same names, all the way out. -/
theorem SameNames.iterate_pop (h : s.SameNames t) (k : Nat) :
    (Scopes.pop^[k] s).SameNames (Scopes.pop^[k] t) := by
  induction k generalizing s t with
  | zero => exact h
  | succ k ih =>
    rw [Function.iterate_succ_apply, Function.iterate_succ_apply]
    rcases Nat.eq_zero_or_pos s.depth with hroot | hinner
    · rw [pop_of_depth_eq_zero hroot, pop_of_depth_eq_zero (h.depth.trans hroot)]
      exact ih h
    · exact ih (h.pop hinner)

/-- A scope is opened, used in any way, and closed.  Around it every name is bound where it was; it
    holds what was last written to it past all scopes opened since, or what it has held.  And at
    any moment a set succeeds exactly when the name is bound, and changes this name and no other. -/
theorem scope_discipline (s : Scopes α) {steps : List (Step α)} (hnested : Nested steps) :
    (∀ n, (s.after (.enter :: steps ++ [.leave])).contains n = s.contains n) ∧
    (∀ k n, (pop^[k] (s.after (.enter :: steps ++ [.leave]))).definedHere n =
      (pop^[k] s).definedHere n) ∧
    (∀ n, (s.after (.enter :: steps ++ [.leave])).lookup n =
      (lastOutward? s.depth n s.push steps).or (s.lookup n)) ∧
    ∀ (t : Scopes α) n a,
      ((t.step (.set n a)).1 = if t.contains n then .stored else .back a) ∧
      (t.contains n = true → (t.step (.set n a)).2.lookup n = some a) ∧
      (∀ m, m ≠ n → (t.step (.set n a)).2.lookup m = t.lookup m) ∧
      (t.contains n = false → (t.step (.set n a)).2 = t) := by
  have hclosed : s.after (.enter :: steps ++ [.leave]) = (s.push.after steps).pop := by
    simp [after, step]
  obtain ⟨hdepth, hsame, hlookup⟩ := upTo_after (s := s.push) (d := s.depth) rfl hnested
  -- leaving the scope cuts the chain where it stood
  have hpop : (s.push.after steps).upTo s.depth = (s.push.after steps).pop := by
    have hone := depth_pop (s := s.push.after steps) (by omega)
    rw [← upTo_pop (by omega), upTo_self (by omega)]
  rw [upTo_push (Nat.le_refl _), upTo_self (Nat.le_refl _), hpop] at hsame hlookup
  rw [hclosed]
  refine ⟨hsame.contains, fun k n => (hsame.iterate_pop k).definedHere n, hlookup, ?_⟩
  intro t n a
  rw [step_set]
  refine ⟨rfl, fun hbound => ?_, fun m hm => ?_, fun hunbound => ?_⟩
  · obtain ⟨b, hb⟩ := Option.isSome_iff_exists.1 hbound
    simp [lookup_modify, hb]
  · exact (lookup_modify t n m _).trans (if_neg (Ne.symm hm))
  · exact modify_of_lookup_none _ (by simpa [contains] using hunbound)

/-- The first write to `x` is made before `x` is shadowed, the second one behind it; `y` is never
    shadowed. -/
theorem scope_discipline_shadowed :
    Nested [Step.set "x" 5, .enter, .define "x" 2, .set "x" 3, .set "y" 11, .leave,
      .update "y" (· + 1)] ∧
    ((ofList [("x", 1), ("y", 10)]).after (.enter :: [.set "x" 5, .enter, .define "x" 2,
      .set "x" 3, .set "y" 11, .leave, .update "y" (· + 1)] ++ [.leave])).lookup "x" = some 5 ∧
    ((ofList [("x", 1), ("y", 10)]).after (.enter :: [.set "x" 5, .enter, .define "x" 2,
      .set "x" 3, .set "y" 11, .leave, .update "y" (· + 1)] ++ [.leave])).lookup "y" = some 12 ∧
    ((ofList [("x", 1), ("y", 10)]).after (.enter :: [.set "x" 5, .enter, .define "x" 2,
      .set "x" 3, .set "y" 11, .leave, .update "y" (· + 1)] ++ [.leave])).contains "z" = false := by
  have hnested : Nested [Step.set "x" 5, .enter, .define "x" 2, .set "x" 3, .set "y" 11, .leave,
      .update "y" (· + 1)] := rfl
  obtain ⟨hcontains, -, hlookup, -⟩ := scope_discipline (ofList [("x", 1), ("y", 10)]) hnested
  exact ⟨hnested, hlookup "x", hlookup "y", hcontains "z"⟩

end ExprLang.Scopes
