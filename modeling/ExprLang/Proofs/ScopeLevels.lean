/-
  SCOPE LEVELS: a chain of scopes as a table of bindings.

  A chain is read here as the function `binding` from a level and a name to what that scope binds
  the name to.  Level 0 is the outermost scope and `depth` is the innermost one, so a binding
  keeps its level while scopes are opened and closed inside it.  `level?` is the level of the
  nearest binding of a name: `lookup` reads there and `modify` writes there.

  Each operation on scopes becomes one equation about `binding`.  Two chains over different
  payloads are compared level by level: when they bind the same names, they resolve every name
  at the same level (`level?_congr`).
-/
import ExprLang.Scopes

namespace ExprLang.Scopes

variable {α β : Type}

/-- What the scope at a level binds a name to. -/
def binding (level : Nat) (name : String) : Scopes α → Option α
  | .root frame => if level = 0 then frame.get? name else none
  | .child frame outer =>
    if level = outer.depth + 1 then frame.get? name else outer.binding level name

/-- The level of the nearest binding of a name. -/
def level? (name : String) : Scopes α → Option Nat
  | .root frame => if (frame.get? name).isSome then some 0 else none
  | .child frame outer =>
    if (frame.get? name).isSome then some (outer.depth + 1) else outer.level? name

/-! ## Levels and depth -/

/-- Declaring a name opens no scope. -/
@[simp] theorem depth_define (s : Scopes α) (name : String) (a : α) :
    (s.define name a).depth = s.depth := by
  cases s <;> rfl

/-- Nor does changing a binding. -/
@[simp] theorem depth_modify (s : Scopes α) (name : String) (f : α → α) :
    (s.modify name f).depth = s.depth := by
  induction s with
  | root frame => simp only [modify]; split <;> rfl
  | child frame outer ih =>
    simp only [modify]
    split
    · rfl
    · simp only [depth, ih]

/-- There is nothing behind the innermost scope. -/
theorem binding_of_depth_lt {s : Scopes α} {level : Nat} (hlevel : s.depth < level)
    (name : String) : s.binding level name = none := by
  induction s with
  | root frame =>
    have hne : level ≠ 0 := by simp only [depth] at hlevel; omega
    simp only [binding, if_neg hne]
  | child frame outer ih =>
    simp only [depth] at hlevel
    have hne : level ≠ outer.depth + 1 := by omega
    simp only [binding, if_neg hne]
    exact ih (by omega)

/-- A binding lies no deeper than the innermost scope. -/
theorem le_depth_of_binding {s : Scopes α} {level : Nat} {name : String} {a : α}
    (h : s.binding level name = some a) : level ≤ s.depth := by
  rcases Nat.lt_or_ge s.depth level with hlt | hge
  · rw [binding_of_depth_lt hlt] at h
    contradiction
  · exact hge

/-- A binding is found no further in than the innermost scope. -/
theorem level?_le_depth {s : Scopes α} {name : String} {level : Nat}
    (h : s.level? name = some level) : level ≤ s.depth := by
  induction s with
  | root frame =>
    simp only [level?] at h
    split at h
    · simp only [Option.some.injEq] at h
      omega
    · contradiction
  | child frame outer ih =>
    simp only [level?] at h
    simp only [depth]
    split at h
    · simp only [Option.some.injEq] at h
      omega
    · have houter := ih h
      omega

/-! ## The nearest binding -/

/-- The nearest binding is the one at the highest level that has one. -/
theorem level?_eq_some_iff {s : Scopes α} {name : String} {level : Nat} :
    s.level? name = some level ↔
      (s.binding level name).isSome ∧ ∀ l, level < l → s.binding l name = none := by
  induction s with
  | root frame =>
    simp only [level?, binding]
    constructor
    · intro h
      split at h
      · rename_i hbound
        simp only [Option.some.injEq] at h
        subst h
        exact ⟨by simpa using hbound, fun l hl => if_neg (by omega)⟩
      · contradiction
    · rintro ⟨hbound, -⟩
      split at hbound
      · rename_i hzero
        rw [if_pos hbound, hzero]
      · contradiction
  | child frame outer ih =>
    simp only [level?]
    rcases hhere : (frame.get? name) with _ | a
    · -- the name is not bound here, so its nearest binding is that of the outer scopes
      simp only [Option.isSome_none, Bool.false_eq_true, if_false, ih, binding, hhere]
      constructor
      · rintro ⟨hbound, hhigher⟩
        have hne : level ≠ outer.depth + 1 := by
          rintro rfl
          rw [binding_of_depth_lt (by omega)] at hbound
          contradiction
        refine ⟨by rwa [if_neg hne], fun l hl => ?_⟩
        split
        · rfl
        · exact hhigher l hl
      · rintro ⟨hbound, hhigher⟩
        split at hbound
        · contradiction
        · refine ⟨hbound, fun l hl => ?_⟩
          have hnone := hhigher l hl
          split at hnone
          · exact binding_of_depth_lt (by omega) name
          · exact hnone
    · -- the name is bound here, and no scope lies deeper
      simp only [Option.isSome_some, if_true, Option.some.injEq, binding, hhere]
      constructor
      · rintro rfl
        refine ⟨by simp, fun l hl => ?_⟩
        rw [if_neg (by omega)]
        exact binding_of_depth_lt (by omega) name
      · rintro ⟨hbound, hhigher⟩
        rcases Nat.lt_trichotomy level (outer.depth + 1) with hlt | heq | hgt
        · have hnone := hhigher _ hlt
          simp at hnone
        · exact heq.symm
        · rw [if_neg (by omega), binding_of_depth_lt (by omega)] at hbound
          contradiction

/-- A name without a binding is bound nowhere in the chain. -/
theorem level?_eq_none_iff {s : Scopes α} {name : String} :
    s.level? name = none ↔ ∀ l, s.binding l name = none := by
  induction s with
  | root frame =>
    simp only [level?, binding]
    constructor
    · intro h l
      split at h
      · contradiction
      · rename_i hbound
        split
        · simpa using hbound
        · rfl
    · intro h
      have hhere := h 0
      simp only [if_true] at hhere
      simp [hhere]
  | child frame outer ih =>
    simp only [level?, binding]
    constructor
    · intro h l
      split at h
      · contradiction
      · rename_i hbound
        split
        · simpa using hbound
        · exact ih.1 h l
    · intro h
      have hhere := h (outer.depth + 1)
      simp only [if_true] at hhere
      rw [hhere]
      refine ih.2 ?_
      intro l
      -- no outer scope is as deep as this one
      have houter := h l
      split at houter
      · exact binding_of_depth_lt (by omega) name
      · exact houter

/-- A look-up reads the nearest binding. -/
theorem lookup_eq (s : Scopes α) (name : String) :
    s.lookup name = (s.level? name).bind fun level => s.binding level name := by
  induction s with
  | root frame =>
    simp only [lookup, level?, binding]
    rcases frame.get? name with _ | a <;> simp
  | child frame outer ih =>
    simp only [lookup, level?, binding]
    rcases hhere : frame.get? name with _ | a
    · simp only [Option.isSome_none, Bool.false_eq_true, if_false, ih]
      rcases hlevel : outer.level? name with _ | level
      · rfl
      · -- the level of an outer binding is not that of the innermost scope
        have hdepth := level?_le_depth hlevel
        simp only [Option.bind_some]
        rw [if_neg (by omega)]
    · simp

/-- A look-up reads the binding at the nearest level. -/
theorem lookup_eq_some_iff {s : Scopes α} {name : String} {a : α} :
    s.lookup name = some a ↔
      ∃ level, s.level? name = some level ∧ s.binding level name = some a := by
  rw [lookup_eq, Option.bind_eq_some_iff]

/-- What is looked up with success is contained. -/
theorem contains_of_lookup {s : Scopes α} {name : String} {a : α} (h : s.lookup name = some a) :
    s.contains name = true := by
  rw [contains, h]
  rfl

/-- Chains that bind a name at the same levels resolve it at the same level. -/
theorem level?_congr {s : Scopes α} {t : Scopes β} {name : String}
    (h : ∀ l, (s.binding l name).isSome = (t.binding l name).isSome) :
    s.level? name = t.level? name := by
  rcases hlevel : t.level? name with _ | level
  · rw [level?_eq_none_iff] at hlevel ⊢
    intro l
    have hsame := h l
    rw [hlevel l] at hsame
    simpa using hsame
  · rw [level?_eq_some_iff] at hlevel ⊢
    refine ⟨(h level).trans hlevel.1, fun l hl => ?_⟩
    have hsame := h l
    rw [hlevel.2 l hl] at hsame
    simpa using hsame

/-- Chains with the same bindings of a name resolve it alike. -/
theorem lookup_congr {s t : Scopes α} {name : String}
    (h : ∀ l, s.binding l name = t.binding l name) : s.lookup name = t.lookup name := by
  rw [lookup_eq, lookup_eq, level?_congr fun l => congrArg Option.isSome (h l)]
  simp only [h]

/-- In a chain of one scope there is one place to look. -/
theorem lookup_of_depth_eq_zero {s : Scopes α} (hroot : s.depth = 0) (name : String) :
    s.lookup name = s.binding 0 name := by
  cases s with
  | root frame => rfl
  | child frame outer => simp [depth] at hroot

/-! ## What each operation does to a binding -/

/-- An open scope binds nothing yet. -/
@[simp] theorem binding_push (s : Scopes α) (level : Nat) (name : String) :
    s.push.binding level name = s.binding level name := by
  simp only [push, binding, Frame.get?]
  split
  · rename_i h
    rw [h, binding_of_depth_lt (Nat.lt_succ_self _)]
  · rfl

/-- A declaration is one entry of the table, at the innermost level. -/
theorem binding_define (s : Scopes α) (name : String) (a : α) (level : Nat) (other : String) :
    (s.define name a).binding level other =
      if level = s.depth ∧ name = other then some a else s.binding level other := by
  cases s with
  | root frame =>
    simp only [define, binding, depth, Frame.get?_put]
    by_cases hlevel : level = 0 <;> simp [hlevel]
  | child frame outer =>
    simp only [define, binding, depth, Frame.get?_put]
    by_cases hlevel : level = outer.depth + 1 <;> simp [hlevel]

/-- Closing a scope forgets what it binds and nothing else. -/
theorem binding_pop {s : Scopes α} (hinner : 0 < s.depth) (level : Nat) (name : String) :
    s.pop.binding level name = if level < s.depth then s.binding level name else none := by
  cases s with
  | root frame => simp only [depth, Nat.lt_irrefl] at hinner
  | child frame outer =>
    have hdepth : (child frame outer).depth = outer.depth + 1 := rfl
    rcases Nat.lt_or_ge level (outer.depth + 1) with hlt | hge
    · rw [if_pos (by omega)]
      simp only [pop, binding, if_neg (show level ≠ outer.depth + 1 by omega)]
    · rw [if_neg (by omega)]
      exact binding_of_depth_lt hge name

/-- What is bound once a scope is closed was bound before. -/
theorem binding_of_binding_pop {s : Scopes α} {level : Nat} {name : String} {a : α}
    (h : s.pop.binding level name = some a) : s.binding level name = some a := by
  rcases Nat.eq_zero_or_pos s.depth with hroot | hinner
  · cases s with
    | root frame => exact h
    | child frame outer => exact absurd hroot (Nat.succ_ne_zero outer.depth)
  · rw [binding_pop hinner] at h
    split at h
    · exact h
    · contradiction

/-- Leaving an inner scope goes one level out. -/
theorem depth_pop {s : Scopes α} (hinner : 0 < s.depth) : s.pop.depth + 1 = s.depth := by
  cases s with
  | root frame => simp only [depth, Nat.lt_irrefl] at hinner
  | child frame outer => rfl

/-- It forgets what was declared there. -/
theorem pop_define {s : Scopes α} (hinner : 0 < s.depth) (name : String) (a : α) :
    (s.define name a).pop = s.pop := by
  cases s with
  | root frame => simp only [depth, Nat.lt_irrefl] at hinner
  | child frame outer => rfl

/-- Only the nearest binding is overwritten. -/
theorem binding_modify (s : Scopes α) (name : String) (f : α → α) (level : Nat)
    (other : String) :
    (s.modify name f).binding level other =
      if s.level? name = some level ∧ name = other then (s.binding level other).map f
      else s.binding level other := by
  induction s with
  | root frame =>
    rcases hbound : frame.get? name with _ | a
    · simp [modify, level?, hbound]
    · by_cases hlevel : level = 0
      · by_cases hname : name = other
        · subst hname
          simp [modify, level?, binding, hbound, hlevel, Frame.get?_put]
        · simp [modify, level?, binding, hbound, hlevel, hname, Frame.get?_put]
      · simp [modify, level?, binding, hbound, hlevel]
  | child frame outer ih =>
    rcases hbound : frame.get? name with _ | a
    · simp only [modify, hbound, binding, level?, depth_modify, Option.isSome_none,
        Bool.false_eq_true, if_false, ih]
      by_cases hlevel : level = outer.depth + 1
      · -- the name is not bound this deep, so nothing changes here
        have hne : outer.level? name ≠ some level := by
          intro h
          have hdepth := level?_le_depth h
          omega
        simp only [if_pos hlevel, hne, false_and, if_false]
      · simp only [if_neg hlevel]
    -- the name is bound here, so it is this scope that changes
    · simp only [modify, hbound, binding, level?, Option.isSome_some, if_true,
        Option.some.injEq, Frame.get?_put]
      by_cases hlevel : level = outer.depth + 1
      · by_cases hname : name = other
        · subst hname
          simp [hlevel, hbound]
        · simp [hlevel, hname]
      · simp [hlevel, Ne.symm hlevel]

/-! ## Lists of bindings -/

/-- A list of bindings is declared from its front, so later ones win. -/
theorem ofList_append (bindings : List (String × α)) (last : String × α) :
    ofList (bindings ++ [last]) = (ofList bindings).define last.1 last.2 := by
  rw [ofList, List.foldl_append]
  rfl

/-- All of them in one scope. -/
@[simp] theorem depth_ofList (bindings : List (String × α)) : (ofList bindings).depth = 0 := by
  rcases List.eq_nil_or_concat bindings with rfl | ⟨front, last, rfl⟩
  · rfl
  · rw [List.concat_eq_append, ofList_append, depth_define]
    exact depth_ofList front
termination_by bindings.length

/-- When a list has one payload for each name, its scope binds what the list says. -/
theorem binding_ofList {bindings : List (String × α)}
    (hunique : ∀ n a b, (n, a) ∈ bindings → (n, b) ∈ bindings → a = b) (name : String) (a : α) :
    (ofList bindings).binding 0 name = some a ↔ (name, a) ∈ bindings := by
  rcases List.eq_nil_or_concat bindings with rfl | ⟨front, ⟨n, b⟩, rfl⟩
  · simp [ofList, empty, binding, Frame.get?]
  · rw [List.concat_eq_append] at hunique ⊢
    have ih : (ofList front).binding 0 name = some a ↔ (name, a) ∈ front :=
      binding_ofList
        (fun n a b ha hb => hunique n a b (List.mem_append_left _ ha) (List.mem_append_left _ hb))
        name a
    have hlast : (n, b) ∈ front ++ [(n, b)] := by simp
    rw [ofList_append, binding_define, depth_ofList, List.mem_append, List.mem_singleton]
    by_cases hname : n = name
    · -- the last binding counts, and every other one of the name has the same payload
      subst hname
      simp only [true_and, if_true, Option.some.injEq, Prod.mk.injEq]
      constructor
      · intro h
        exact .inr h.symm
      · rintro (h | h)
        · exact hunique n b a hlast (List.mem_append_left _ h)
        · exact h.symm
    · simp [hname, Ne.symm hname, ih]
termination_by bindings.length

end ExprLang.Scopes
