/-
  STORE LINKS: where the machine keeps the values of the names in scope.

  The evaluator has a chain of scopes, the machine one flat store.  `Linked` says how they fit:
  wherever the evaluator binds a name to a value, lowering has bound the same name at the same
  level to a variable, and the store holds the value there.  The root has one more name on the
  side of the code, that of the variable `unit`; further in, the names are the same, so a name
  with a value is resolved at the same level by both.

  `Spares` is what code leaves alone while an expression is computed: every variable that was
  known before, except that an assignment may overwrite the variable of a declared name.  It is
  what keeps an operand safe until the call reads it.
-/
import ExprLang.Proofs.Execution

namespace ExprLang

open Machine

/-- Where a name has a value, it is bound to a variable that holds the value. -/
structure Linked (scopes : Scopes Var) (ρ : Scopes Value) (σ : Store) : Prop where
  depth : ρ.depth = scopes.depth
  held : ∀ l n v, ρ.binding l n = some v → ∃ x, scopes.binding l n = some x ∧ σ x = some v
  named : ∀ l n x, scopes.binding l n = some x → 0 < l → (ρ.binding l n).isSome
  unit : σ .unit = some .unit

namespace Linked

variable {scopes : Scopes Var} {ρ : Scopes Value} {σ : Store} {n : String} {x : Var} {v : Value}

/-- A name with a value is resolved at one level by both. -/
theorem level? (h : Linked scopes ρ σ) {l : Nat} (hlevel : ρ.level? n = some l) :
    scopes.level? n = some l := by
  obtain ⟨hbound, hinner⟩ := Scopes.level?_eq_some_iff.1 hlevel
  obtain ⟨v, hv⟩ := Option.isSome_iff_exists.1 hbound
  obtain ⟨x, hx, -⟩ := h.held l n v hv
  rw [Scopes.level?_eq_some_iff]
  refine ⟨by rw [hx]; rfl, ?_⟩
  -- an inner scope that had a variable for the name would have a value too
  intro k hk
  rcases hinnerVar : scopes.binding k n with _ | y
  · rfl
  · have hpos : 0 < k := by omega
    have hnamed := h.named k n y hinnerVar hpos
    rw [hinner k hk] at hnamed
    contradiction

/-- A variable that a name is bound to holds its value. -/
theorem lookup (h : Linked scopes ρ σ) (hvar : scopes.lookup n = some x)
    (hvalue : ρ.lookup n = some v) : σ x = some v := by
  obtain ⟨l, hlevel, hv⟩ := Scopes.lookup_eq_some_iff.1 hvalue
  obtain ⟨k, hlevel', hx⟩ := Scopes.lookup_eq_some_iff.1 hvar
  obtain rfl := Option.some.inj ((h.level? hlevel).symm.trans hlevel')
  obtain ⟨y, hy, hheld⟩ := h.held l n v hv
  obtain rfl := Option.some.inj (hx.symm.trans hy)
  exact hheld

/-- A new scope binds nothing, neither to a variable nor to a value. -/
theorem push (h : Linked scopes ρ σ) : Linked scopes.push ρ.push σ where
  depth := by rw [Scopes.depth_push, Scopes.depth_push, h.depth]
  held l m w hw := by
    rw [Scopes.binding_push] at hw ⊢
    exact h.held l m w hw
  named l m y hy hl := by
    rw [Scopes.binding_push] at hy ⊢
    exact h.named l m y hy hl
  unit := h.unit

/-- The scopes around the innermost one stay linked. -/
theorem pop (h : Linked scopes ρ σ) (hinner : 0 < scopes.depth) :
    Linked scopes.pop ρ.pop σ := by
  have hinner' : 0 < ρ.depth := by
    rw [h.depth]
    exact hinner
  refine ⟨?_, ?_, ?_, h.unit⟩
  · have hscopes := Scopes.depth_pop hinner
    have hvalues := Scopes.depth_pop hinner'
    have hdepth := h.depth
    omega
  · intro l m w hw
    rw [Scopes.binding_pop hinner', h.depth] at hw
    split at hw
    · rename_i hl
      rw [Scopes.binding_pop hinner, if_pos hl]
      exact h.held l m w hw
    · contradiction
  · intro l m y hy hl
    rw [Scopes.binding_pop hinner] at hy
    split at hy
    · rename_i hlevel
      rw [Scopes.binding_pop hinner', h.depth, if_pos hlevel]
      exact h.named l m y hy hl
    · contradiction

/-- A name is declared, and its variable holds the value already. -/
theorem define (h : Linked scopes ρ σ) (n : String) (hx : σ x = some v) :
    Linked (scopes.define n x) (ρ.define n v) σ where
  depth := by rw [Scopes.depth_define, Scopes.depth_define, h.depth]
  held l m w hw := by
    rw [Scopes.binding_define, h.depth] at hw
    rw [Scopes.binding_define]
    split at hw
    · rename_i hhere
      obtain rfl := Option.some.inj hw
      exact ⟨x, if_pos hhere, hx⟩
    · rename_i hother
      rw [if_neg hother]
      exact h.held l m w hw
  named l m y hy hl := by
    rw [Scopes.binding_define] at hy
    rw [Scopes.binding_define, h.depth]
    split at hy
    · rename_i hhere
      rw [if_pos hhere]
      rfl
    · rename_i hother
      rw [if_neg hother]
      exact h.named l m y hy hl
  unit := h.unit

/-- A variable may be written that no name is bound to. -/
theorem set (h : Linked scopes ρ σ) (v : Value) (hfree : ∀ l n, scopes.binding l n ≠ some x)
    (hunit : x ≠ .unit) : Linked scopes ρ (σ.set x v) where
  depth := h.depth
  held l m w hw := by
    obtain ⟨y, hy, hheld⟩ := h.held l m w hw
    have hne : y ≠ x := fun heq => hfree l m (heq ▸ hy)
    exact ⟨y, hy, by rw [Store.set_of_ne _ _ _ hne, hheld]⟩
  named := h.named
  unit := by rw [Store.set_of_ne _ _ _ hunit.symm, h.unit]

/-- An assignment overwrites the value of a name and the variable that is bound to it alone. -/
theorem assign (h : Linked scopes ρ σ) (hbound : ρ.contains n = true)
    (hvar : scopes.lookup n = some x) (v : Value)
    (hown : ∀ l m l' m', scopes.binding l m = some x → scopes.binding l' m' = some x →
      l = l' ∧ m = m')
    (hunit : x ≠ .unit) : Linked scopes (ρ.modify n fun _ => v) (σ.set x v) := by
  obtain ⟨old, hold⟩ := Option.isSome_iff_exists.1 hbound
  obtain ⟨k, hlevel, -⟩ := Scopes.lookup_eq_some_iff.1 hold
  obtain ⟨k', hlevel', hx⟩ := Scopes.lookup_eq_some_iff.1 hvar
  obtain rfl := Option.some.inj ((h.level? hlevel).symm.trans hlevel')
  refine ⟨by rw [Scopes.depth_modify, h.depth], ?_, ?_, ?_⟩
  · intro l m w hw
    rw [Scopes.binding_modify] at hw
    split at hw
    · -- the binding that is overwritten
      rename_i hhere
      obtain ⟨hl, rfl⟩ := hhere
      obtain rfl := Option.some.inj (hlevel.symm.trans hl)
      obtain ⟨-, -, rfl⟩ := Option.map_eq_some_iff.1 hw
      exact ⟨x, hx, Store.set_self _ _ _⟩
    · rename_i hother
      obtain ⟨y, hy, hheld⟩ := h.held l m w hw
      -- no other name lives in the variable
      have hne : y ≠ x := by
        rintro rfl
        obtain ⟨rfl, rfl⟩ := hown k n l m hx hy
        exact hother ⟨hlevel, rfl⟩
      exact ⟨y, hy, by rw [Store.set_of_ne _ _ _ hne, hheld]⟩
  · intro l m y hy hl
    have hnamed := h.named l m y hy hl
    rw [Scopes.binding_modify]
    split
    · rwa [Option.isSome_map]
    · exact hnamed
  · rw [Store.set_of_ne _ _ _ hunit.symm, h.unit]

end Linked

/-! ## What is left alone -/

/-- Known variables keep what they hold; those of declared names only if nothing is assigned. -/
def Spares (d : Draft) (overwritten : Bool) (σ σ' : Store) : Prop :=
  ∀ y, d.Known y → (overwritten = true → y ∉ d.declared) → σ' y = σ y

namespace Spares

variable {d d₁ : Draft} {a b : Bool} {σ σ₁ σ₂ : Store}

/-- Where nothing is executed, everything is left alone. -/
theorem refl (d : Draft) (a : Bool) (σ : Store) : Spares d a σ σ := fun _ _ _ => rfl

/-- Less is left alone when more is assigned. -/
theorem mono (h : Spares d a σ σ₁) (hab : a = true → b = true) : Spares d b σ σ₁ :=
  fun y hy hdeclared => h y hy fun ha => hdeclared (hab ha)

/-- What two stretches of code leave alone is left alone by both together. -/
theorem trans (h : Spares d a σ σ₁) (h' : Spares d₁ b σ₁ σ₂) (hext : d.Extends d₁) :
    Spares d (a || b) σ σ₂ := by
  intro y hy hdeclared
  have hearlier : a = true → y ∉ d.declared := by
    intro ha
    exact hdeclared (by rw [ha, Bool.true_or])
  -- a variable that was known before is not declared on the way
  have hlater : b = true → y ∉ d₁.declared := by
    intro hb hmem
    exact hdeclared (by rw [hb, Bool.or_true]) ((hext.declared y hy).1 hmem)
  rw [h' y (hext.known hy) hlater, h y hy hearlier]

/-- A variable may be written that was not known. -/
theorem set (h : Spares d a σ σ₁) {x : Var} (hx : ¬d.Known x) (v : Value) :
    Spares d a σ (σ₁.set x v) := by
  intro y hy hdeclared
  have hne : y ≠ x := fun heq => hx (heq ▸ hy)
  rw [Store.set_of_ne _ _ _ hne, h y hy hdeclared]

end Spares

end ExprLang
