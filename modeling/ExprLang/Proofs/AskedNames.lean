/-
  ASKED NAMES: the names that a pass over a tree asks its surroundings for.

  Checking, evaluating and lowering each carry a chain of scopes along and stop at a name that it
  does not bind.  What they have in common is said once: a `Pass` knows where its scopes are and
  which of its errors report an undefined name, and `Asks` says of a computation that it asks the
  surroundings for nothing but the names of some uses, and what has become of the scopes when it
  is through.  There is one rule for each way to build a computation.

  The names that the surroundings bind are given by a predicate `known`, and those that the tree
  itself has declared by a list, so that nothing here depends on what a name is bound to.
-/
import ExprLang.Proofs.Effects
import ExprLang.Proofs.ScopeLevels
import ExprLang.Proofs.FreeUses
import ExprLang.Proofs.ParsedTrees

namespace ExprLang

variable {α β : Type}

/-! ## Chains that bind the same names -/

namespace Scopes

/-- A name is in scope if and only if some scope binds it. -/
theorem contains_eq_level? (s : Scopes α) (n : String) :
    s.contains n = (s.level? n).isSome := by
  rw [contains, lookup_eq]
  rcases hlevel : s.level? n with _ | l
  · rfl
  · exact (level?_eq_some_iff.1 hlevel).1

/-- A declaration adds its own name and no other. -/
theorem contains_define (s : Scopes α) (n m : String) (a : α) :
    (s.define n a).contains m = true ↔ n = m ∨ s.contains m = true := by
  simp only [contains, lookup_define]
  split <;> simp [*]

/-- The second chain binds the names that the first one binds, scope by scope. -/
structure SameNames (s t : Scopes α) : Prop where
  depth : t.depth = s.depth
  bound : ∀ l n, (t.binding l n).isSome = (s.binding l n).isSome

namespace SameNames

variable {s t u : Scopes α}

/-- Every chain binds its own names. -/
theorem refl (s : Scopes α) : s.SameNames s := ⟨rfl, fun _ _ => rfl⟩

/-- Binding the same names carries over from chain to chain. -/
theorem trans (h : s.SameNames t) (h' : t.SameNames u) : s.SameNames u :=
  ⟨h'.depth.trans h.depth, fun l n => (h'.bound l n).trans (h.bound l n)⟩

/-- Chains with the same names answer alike whether a name is in scope. -/
theorem contains (h : s.SameNames t) (n : String) : t.contains n = s.contains n := by
  rw [contains_eq_level?, contains_eq_level?, level?_congr fun l => h.bound l n]

/-- An assignment binds nothing new. -/
theorem modify (s : Scopes α) (n : String) (f : α → α) : s.SameNames (s.modify n f) where
  depth := depth_modify s n f
  bound l m := by
    rw [binding_modify]
    split
    · exact Option.isSome_map
    · rfl

/-- They still do when both declare one name more, whatever its value. -/
theorem define (h : s.SameNames t) (n : String) (a b : α) :
    (s.define n a).SameNames (t.define n b) where
  depth := by rw [depth_define, depth_define, h.depth]
  bound l m := by
    rw [binding_define, binding_define, h.depth]
    split
    · rfl
    · exact h.bound l m

/-- They still do when both leave a scope. -/
theorem pop (h : s.SameNames t) (hinner : 0 < s.depth) : s.pop.SameNames t.pop where
  depth := by
    have hs := depth_pop hinner
    have ht := depth_pop (s := t) (h.depth ▸ hinner)
    have hdepth := h.depth
    omega
  bound l n := by
    rw [binding_pop hinner, binding_pop (h.depth ▸ hinner), h.depth]
    split
    · exact h.bound l n
    · rfl

end SameNames

/-- The second chain binds one name more, in its innermost scope. -/
def Defines (n : String) (s t : Scopes α) : Prop := ∃ a, (s.define n a).SameNames t

/-- Around the innermost scope both chains bind the same names. -/
def SameAround (s t : Scopes α) : Prop := 0 < s.depth → s.pop.SameNames t.pop

/-- Chains that bind the same names do so around the innermost scope too. -/
theorem SameNames.around {s t : Scopes α} (h : s.SameNames t) : s.SameAround t := h.pop

/-- A chain with the same names may stand in for the first. -/
theorem SameNames.trans_around {s t u : Scopes α} (h : s.SameNames t) (h' : t.SameAround u) :
    s.SameAround u :=
  fun hinner => (h.pop hinner).trans (h' (h.depth ▸ hinner))

/-- A declaration changes nothing around the innermost scope. -/
theorem Defines.trans_around {n : String} {s t u : Scopes α} (h : Defines n s t)
    (h' : t.SameAround u) : s.SameAround u := by
  obtain ⟨a, h⟩ := h
  intro hinner
  rw [← pop_define hinner n a]
  exact h.trans_around h' (by rwa [depth_define])

/-! ## Known names -/

/-- The names in scope are the declared ones and those that the surroundings bind. -/
def Knows (known : String → Prop) (declared : List String) (s : Scopes α) : Prop :=
  ∀ n, s.contains n = true ↔ n ∈ declared ∨ known n

variable {known : String → Prop} {declared : List String} {s t : Scopes α}

/-- What the names in scope are does not depend on their values. -/
theorem Knows.same (h : s.Knows known declared) (hsame : s.SameNames t) :
    t.Knows known declared := fun n => by rw [hsame.contains n, h n]

/-- A new scope adds no name. -/
theorem Knows.push (h : s.Knows known declared) : s.push.Knows known declared := h

/-- Behind a declaration its name is one of the declared ones. -/
theorem Knows.defines {n : String} (h : s.Knows known declared) (hdefines : Defines n s t) :
    t.Knows known (n :: declared) := by
  obtain ⟨a, hsame⟩ := hdefines
  intro m
  rw [hsame.contains m, contains_define, h m, List.mem_cons, or_assoc, eq_comm]

end Scopes

/-! ## Passes -/

/-- A pass over a tree, as far as names are concerned. -/
structure Pass (ε σ β : Type) where
  /-- The names in scope. -/
  scopes : σ → Scopes β
  /-- The name that an error reports as undefined. -/
  undefined? : ε → Option String
  /-- Whether the pass visits every part of a tree, and stops at undefined names only. -/
  thorough : Prop

namespace Pass

variable {ε σ : Type} (p : Pass ε σ β) (known : String → Prop)

/-- A computation asks its surroundings for nothing but the names of some uses; when it is through
    the scopes have changed by `change`.  A thorough pass asks for all of them. -/
def Asks (change : Scopes β → Scopes β → Prop) (declared : List String) (uses : List Use)
    (act : EStateM ε σ α) : Prop :=
  ∀ s, (p.scopes s).Knows known declared →
    Leads act s
      (fun _ s' => change (p.scopes s) (p.scopes s') ∧ (p.thorough → ∀ u ∈ uses, known u.name))
      fun e _ => (p.thorough → p.undefined? e ≠ none) ∧
        ∀ n, p.undefined? e = some n → (∃ u ∈ uses, u.name = n) ∧ ¬known n

variable {p known} {declared declared' : List String} {uses uses₁ uses₂ : List Use}
variable {change change₁ change₂ : Scopes β → Scopes β → Prop}

/-- A result that is given asks for nothing. -/
theorem asks_pure (a : α) : p.Asks known Scopes.SameNames declared [] (pure a) :=
  fun _ _ => ⟨.refl _, fun _ => by simp⟩

/-- Any other error may end a pass that is not thorough. -/
theorem asks_throw {e : ε} (hpass : ¬p.thorough) (he : p.undefined? e = none) :
    p.Asks known change declared uses (throw e : EStateM ε σ α) :=
  fun _ _ => ⟨fun h => absurd h hpass, fun n hn => by simp [he] at hn⟩

/-- The uses that a computation asks for are a matter of membership; and one that asks for less
    will do, unless the pass is thorough. -/
theorem Asks.mono {act : EStateM ε σ α} (h : p.Asks known change declared uses₁ act)
    (hsub : uses₁ ⊆ uses) (hall : p.thorough → uses ⊆ uses₁) :
    p.Asks known change declared uses act := by
  intro s hs
  refine (h s hs).mono (fun _ s' ⟨hchange, hknown⟩ => ⟨hchange, fun hpass u hu => ?_⟩) ?_
  · exact hknown hpass u (hall hpass hu)
  · rintro e s' ⟨hfound, hblamed⟩
    refine ⟨hfound, fun n hn => ?_⟩
    obtain ⟨⟨u, hu, hname⟩, hunknown⟩ := hblamed n hn
    exact ⟨⟨u, hsub hu, hname⟩, hunknown⟩

/-- The uses count as a set. -/
theorem Asks.congr {act : EStateM ε σ α} (h : p.Asks known change declared uses₁ act)
    (hmem : ∀ u, u ∈ uses₁ ↔ u ∈ uses) : p.Asks known change declared uses act :=
  h.mono (fun u hu => (hmem u).1 hu) fun _ u hu => (hmem u).2 hu

/-- The order of the uses does not matter. -/
theorem Asks.swap {act : EStateM ε σ α} (h : p.Asks known change declared (uses₁ ++ uses₂) act) :
    p.Asks known change declared (uses₂ ++ uses₁) act :=
  h.congr fun u => by rw [List.mem_append, List.mem_append, or_comm]

/-- A looser description of the change may be given. -/
theorem Asks.mono_change {act : EStateM ε σ α} (h : p.Asks known change₁ declared uses act)
    (hchange : ∀ s t, change₁ s t → change s t) : p.Asks known change declared uses act :=
  fun s hs => (h s hs).mono (fun _ _ hgood => ⟨hchange _ _ hgood.1, hgood.2⟩) fun _ _ hbad => hbad

/-- A sequence asks for what its parts ask for; what the first part has done to the scopes is what
    the second part finds. -/
theorem Asks.seq {act : EStateM ε σ α} {γ : Type} {k : α → EStateM ε σ γ}
    (h : p.Asks known change₁ declared uses₁ act)
    (hk : ∀ a, p.Asks known change₂ declared' uses₂ (k a))
    (hknows : ∀ s t : Scopes β, s.Knows known declared → change₁ s t → t.Knows known declared')
    (htrans : ∀ s t u, change₁ s t → change₂ t u → change s u) :
    p.Asks known change declared (uses₁ ++ uses₂) (act >>= k) := by
  intro s hs
  refine leads_bind.2 ((h s hs).mono ?_ ?_)
  · rintro a s₁ ⟨hchange, hknown⟩
    refine (hk a s₁ (hknows _ _ hs hchange)).mono ?_ ?_
    · rintro b s₂ ⟨hchange', hknown'⟩
      refine ⟨htrans _ _ _ hchange hchange', fun hpass u hu => ?_⟩
      exact (List.mem_append.1 hu).elim (hknown hpass u) (hknown' hpass u)
    · rintro e s₂ ⟨hfound, hblamed⟩
      refine ⟨hfound, fun n hn => ?_⟩
      obtain ⟨⟨u, hu, hname⟩, hunknown⟩ := hblamed n hn
      exact ⟨⟨u, List.mem_append_right _ hu, hname⟩, hunknown⟩
  · rintro e s₁ ⟨hfound, hblamed⟩
    refine ⟨hfound, fun n hn => ?_⟩
    obtain ⟨⟨u, hu, hname⟩, hunknown⟩ := hblamed n hn
    exact ⟨⟨u, List.mem_append_left _ hu, hname⟩, hunknown⟩

/-- Behind a value the scopes bind the names that they have bound in front of it. -/
theorem Asks.bind {act : EStateM ε σ α} {γ : Type} {k : α → EStateM ε σ γ}
    (h : p.Asks known Scopes.SameNames declared uses₁ act)
    (hk : ∀ a, p.Asks known Scopes.SameNames declared uses₂ (k a)) :
    p.Asks known Scopes.SameNames declared (uses₁ ++ uses₂) (act >>= k) :=
  h.seq hk (fun _ _ hs hsame => hs.same hsame) fun _ _ _ hsame hsame' => hsame.trans hsame'

/-- Nothing is asked for in front of the rest. -/
theorem Asks.andThen {act : EStateM ε σ α} {γ : Type} {k : α → EStateM ε σ γ}
    (h : p.Asks known Scopes.SameNames declared [] act)
    (hk : ∀ a, p.Asks known Scopes.SameNames declared uses (k a)) :
    p.Asks known Scopes.SameNames declared uses (act >>= k) := h.bind hk

/-- Nothing is asked for behind the rest. -/
theorem Asks.ending {act : EStateM ε σ α} {γ : Type} {k : α → EStateM ε σ γ}
    (h : p.Asks known Scopes.SameNames declared uses act)
    (hk : ∀ a, p.Asks known Scopes.SameNames declared [] (k a)) :
    p.Asks known Scopes.SameNames declared uses (act >>= k) :=
  (h.bind hk).congr fun u => by rw [List.append_nil]

/-- Which of two computations runs does not matter if both ask for the same. -/
theorem Asks.ite {c : Prop} [Decidable c] {act act' : EStateM ε σ α}
    (h : p.Asks known change declared uses act) (h' : p.Asks known change declared uses act') :
    p.Asks known change declared uses (if c then act else act') := by
  split
  · exact h
  · exact h'

/-- A step that uses a name asks for it, unless the tree has declared it. -/
theorem asks_use {act : EStateM ε σ α} {e : ε} {use : Use}
    (hfound : ∀ s, (p.scopes s).contains use.name = true →
      ∃ a s', act s = .ok a s' ∧ (p.scopes s).SameNames (p.scopes s'))
    (hlost : ∀ s, (p.scopes s).contains use.name = false → act s = .error e s)
    (he : p.undefined? e = some use.name) :
    p.Asks known Scopes.SameNames declared (use.outside declared) act := by
  intro s hs
  have hknows := hs use.name
  unfold Leads
  rcases hbound : (p.scopes s).contains use.name with _ | _
  · rw [hbound] at hknows
    obtain ⟨hundeclared, hunknown⟩ := not_or.1 (mt hknows.2 Bool.false_ne_true)
    rw [hlost s hbound, Use.outside, if_neg hundeclared]
    refine ⟨fun _ => by simp [he], fun n hn => ?_⟩
    obtain rfl : use.name = n := Option.some.inj (he.symm.trans hn)
    exact ⟨⟨use, List.mem_singleton_self _, rfl⟩, hunknown⟩
  · obtain ⟨a, s', hrun, hsame⟩ := hfound s hbound
    rw [hrun]
    refine ⟨hsame, fun _ u hu => ?_⟩
    -- a use that is outside is not declared, so the surroundings bind its name
    unfold Use.outside at hu
    split at hu
    · contradiction
    · rename_i hundeclared
      rw [List.mem_singleton.1 hu]
      exact (hknows.1 hbound).resolve_left hundeclared

/-- For a name that the surroundings bind, asking is as good as not asking. -/
theorem Asks.of_known {act : EStateM ε σ α} {use : Use}
    (h : p.Asks known change declared (use.outside declared) act) (hknown : known use.name) :
    p.Asks known change declared [] act := by
  intro s hs
  refine (h s hs).mono (fun _ _ hgood => ⟨hgood.1, fun _ => by simp⟩) ?_
  rintro e s' ⟨hfound, hblamed⟩
  refine ⟨hfound, fun n hn => ?_⟩
  obtain ⟨⟨u, hu, rfl⟩, hunknown⟩ := hblamed n hn
  unfold Use.outside at hu
  split at hu
  · contradiction
  · rw [List.mem_singleton.1 hu] at hunknown
    exact absurd hknown hunknown

/-- A step that never fails and leaves the scopes alone. -/
theorem asks_still {act : EStateM ε σ α}
    (hact : ∀ s, ∃ a s', act s = .ok a s' ∧ p.scopes s' = p.scopes s) :
    p.Asks known Scopes.SameNames declared [] act := by
  intro s _
  obtain ⟨a, s', hrun, hscopes⟩ := hact s
  unfold Leads
  rw [hrun]
  exact ⟨hscopes ▸ .refl _, fun _ => by simp⟩

/-- A step in a scope of its own may change that scope as it likes. -/
theorem Asks.within {act : EStateM ε σ α} {enter leave : σ → σ}
    (h : p.Asks known Scopes.SameAround declared uses act)
    (henter : ∀ s, p.scopes (enter s) = (p.scopes s).push)
    (hleave : ∀ s, p.scopes (leave s) = (p.scopes s).pop) :
    p.Asks known Scopes.SameNames declared uses (within enter leave act) := by
  intro s hs
  refine leads_within.2 ((h (enter s) ?_).mono ?_ fun _ _ he => he)
  · rw [henter]
    exact hs.push
  · rintro a s' ⟨haround, hknown⟩
    refine ⟨?_, hknown⟩
    rw [henter] at haround
    rw [hleave]
    exact haround (Nat.succ_pos _)

/-! ### Statements -/

/-- A statement that declares nothing, and those behind it. -/
theorem Asks.run {act : EStateM ε σ α} {γ : Type} {k : α → EStateM ε σ γ}
    (h : p.Asks known Scopes.SameNames declared uses₁ act)
    (hk : ∀ a, p.Asks known Scopes.SameAround declared uses₂ (k a)) :
    p.Asks known Scopes.SameAround declared (uses₁ ++ uses₂) (act >>= k) :=
  h.seq hk (fun _ _ hs hsame => hs.same hsame) fun _ _ _ hsame haround => hsame.trans_around haround

/-- A declaration, and the statements behind it, for which the name is declared. -/
theorem Asks.declare {act : EStateM ε σ α} {γ : Type} {k : α → EStateM ε σ γ} {n : String}
    (h : p.Asks known (Scopes.Defines n) declared uses₁ act)
    (hk : ∀ a, p.Asks known Scopes.SameAround (n :: declared) uses₂ (k a)) :
    p.Asks known Scopes.SameAround declared (uses₁ ++ uses₂) (act >>= k) :=
  h.seq hk (fun _ _ hs hdefines => hs.defines hdefines)
    fun _ _ _ hdefines haround => hdefines.trans_around haround

/-- The last step of a declaration binds the name. -/
theorem Asks.defining {act : EStateM ε σ α} {γ : Type} {k : α → EStateM ε σ γ} {n : String}
    (h : p.Asks known Scopes.SameNames declared uses act)
    (hk : ∀ a s, ∃ c s' b, k a s = .ok c s' ∧ p.scopes s' = (p.scopes s).define n b) :
    p.Asks known (Scopes.Defines n) declared uses (act >>= k) := by
  intro s hs
  refine leads_bind.2 ((h s hs).mono ?_ fun _ _ he => he)
  rintro a s₁ ⟨hsame, hknown⟩
  obtain ⟨c, s', b, hrun, hscopes⟩ := hk a s₁
  show Leads (k a) s₁ _ _
  unfold Leads
  rw [hrun]
  exact ⟨⟨b, hscopes ▸ hsame.define n b b⟩, hknown⟩

/-! ### Trees -/

/-- What a tree does to the scopes around it: a declaration binds its name. -/
def ChangedBy : Expr → Scopes β → Scopes β → Prop
  | .var _ n _ => Scopes.Defines n
  | _ => Scopes.SameNames

/-- A value declares nothing. -/
theorem Asks.value {act : EStateM ε σ α} {e : Expr} {names : String → Prop}
    (h : p.Asks known (ChangedBy e) declared uses act) (hfits : e.Fits names .value) :
    p.Asks known Scopes.SameNames declared uses act := by
  cases e with
  | var => simp [Expr.Fits] at hfits
  | _ => exact h

/-- A statement and those behind it, for which the statement has declared what it declares. -/
theorem Asks.statement {act : EStateM ε σ α} {γ : Type} {k : α → EStateM ε σ γ} {e : Expr}
    {rest : List Expr} (h : p.Asks known (ChangedBy e) declared (e.freeUses declared) act)
    (hk : ∀ declared' a, p.Asks known Scopes.SameAround declared'
      (Expr.freeUsesBody declared' rest) (k a)) :
    p.Asks known Scopes.SameAround declared (Expr.freeUsesBody declared (e :: rest))
      (act >>= k) := by
  cases e with
  | var => exact h.declare (hk _)
  | _ => exact h.run (hk _)

end Pass
end ExprLang
