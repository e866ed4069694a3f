/-
  STEPS: a chain of scopes in use.

  A chain is used through its innermost scope, one step after the other.  A step binds a name there,
  reads or overwrites the nearest binding of a name, wherever it is, opens one more scope or closes
  the innermost one; and it answers something.

  What is to be overwritten is found first.  `slot?` gives the place of a binding: what it holds,
  and the chain with something else there.  It is a search of its own and does not use `lookup`;
  that both find the same binding is `slot?_eq`.
-/
import ExprLang.Scopes

namespace ExprLang.Scopes

variable {α : Type}

/-! ## Places -/

/-- The place of a binding in a chain. -/
structure Slot (α : Type) where
  held : α
  /-- The chain with something else in this place. -/
  put : α → Scopes α

/-- The place of the nearest binding of a name. -/
def slot? (name : String) : Scopes α → Option (Slot α)
  | .root frame =>
    match frame.get? name with
    | some a => some ⟨a, fun b => .root (frame.put name b)⟩
    | none => none
  | .child frame outer =>
    match frame.get? name with
    | some a => some ⟨a, fun b => .child (frame.put name b) outer⟩
    | none => (outer.slot? name).map fun slot => ⟨slot.held, fun b => .child frame (slot.put b)⟩

/-- Overwrite the nearest binding of a name.  Without one the value is handed back. -/
def set (name : String) (a : α) (scopes : Scopes α) : Except α (Scopes α) :=
  match scopes.slot? name with
  | some slot => .ok (slot.put a)
  | none => .error a

/-- Change what the nearest binding of a name holds. -/
def update? (name : String) (f : α → α) (scopes : Scopes α) : Option (α × Scopes α) :=
  (scopes.slot? name).map fun slot => (f slot.held, slot.put (f slot.held))

/-! ## Steps -/

/-- A step that uses a chain of scopes. -/
inductive Step (α : Type) where
  | define (name : String) (a : α)
  | set (name : String) (a : α)
  | update (name : String) (f : α → α)
  | lookup (name : String)
  | enter
  | leave

/-- What a step answers. -/
inductive Answer (α : Type) where
  /-- What the name was bound to in the same scope. -/
  | replaced (old : Option α)
  | stored
  | back (a : α)
  | updated (new : Option α)
  | found (a : Option α)
  | level (depth : Nat)
deriving DecidableEq

/-- The answer to a step, and the chain behind it. -/
def step (scopes : Scopes α) : Step α → Answer α × Scopes α
  | .define name a => (.replaced (scopes.inner.get? name), scopes.define name a)
  | .set name a =>
    match scopes.set name a with
    | .ok scopes => (.stored, scopes)
    | .error a => (.back a, scopes)
  | .update name f =>
    match scopes.update? name f with
    | some (b, scopes) => (.updated (some b), scopes)
    | none => (.updated none, scopes)
  | .lookup name => (.found (scopes.lookup name), scopes)
  | .enter => (.level scopes.push.depth, scopes.push)
  | .leave => (.level scopes.pop.depth, scopes.pop)

/-- The chain behind some steps. -/
def after (scopes : Scopes α) (steps : List (Step α)) : Scopes α :=
  steps.foldl (fun scopes step => (scopes.step step).2) scopes

/-! ## Reading and writing find the same binding -/

theorem slot?_eq (scopes : Scopes α) (name : String) :
    scopes.slot? name =
      (scopes.lookup name).map fun a => ⟨a, fun b => scopes.modify name fun _ => b⟩ := by
  induction scopes with
  | root frame =>
    simp only [slot?, lookup, modify]
    cases frame.get? name <;> rfl
  | child frame outer ih =>
    simp only [slot?, lookup, modify]
    cases frame.get? name with
    | some a => rfl
    | none =>
      rw [ih]
      cases outer.lookup name <;> rfl

/-- What a name holds is all that matters to a change of it. -/
theorem modify_congr {scopes : Scopes α} {name : String} {f g : α → α}
    (h : ∀ a, scopes.lookup name = some a → f a = g a) :
    scopes.modify name f = scopes.modify name g := by
  induction scopes with
  | root frame =>
    simp only [lookup] at h
    simp only [modify]
    cases hbound : frame.get? name with
    | some a => simp only [h a hbound]
    | none => rfl
  | child frame outer ih =>
    simp only [lookup] at h
    simp only [modify]
    cases hbound : frame.get? name with
    | some a => simp only [h a (by rw [hbound])]
    | none =>
      rw [hbound] at h
      simp only [ih h]

/-- Nothing is changed where nothing is bound. -/
theorem modify_of_lookup_none {scopes : Scopes α} {name : String} (f : α → α)
    (h : scopes.lookup name = none) : scopes.modify name f = scopes := by
  induction scopes with
  | root frame =>
    simp only [lookup] at h
    simp only [modify, h]
  | child frame outer ih =>
    simp only [lookup] at h
    cases hbound : frame.get? name with
    | some a => simp [hbound] at h
    | none =>
      rw [hbound] at h
      simp only [modify, hbound, ih h]

/-- A name that is bound can be overwritten, and no other. -/
theorem set_eq (scopes : Scopes α) (name : String) (a : α) :
    scopes.set name a =
      if scopes.contains name then .ok (scopes.modify name fun _ => a) else .error a := by
  rcases hbound : scopes.lookup name with _ | b <;> simp [set, slot?_eq, contains, hbound]

theorem update?_eq (scopes : Scopes α) (name : String) (f : α → α) :
    scopes.update? name f =
      (scopes.lookup name).map fun a => (f a, scopes.modify name f) := by
  simp only [update?, slot?_eq]
  cases hbound : scopes.lookup name with
  | none => rfl
  | some a =>
    have hmodify : (scopes.modify name fun _ => f a) = scopes.modify name f :=
      modify_congr fun b hb => by rw [Option.some.inj (hbound.symm.trans hb)]
    simp only [Option.map_some, hmodify]

end ExprLang.Scopes
