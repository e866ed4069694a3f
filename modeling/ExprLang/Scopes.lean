/-
  SCOPES: the names that a part of a program may use, each with something bound to it.

  A scope is a `Frame`, a table from names to payloads.  Scopes nest: the names of the innermost
  frame hide those of the outer ones.  The checker binds types, the evaluator values and the
  lowering variables of the code, all in the same chain of frames.

  `define` binds in the innermost frame; `assign?` overwrites the nearest binding, wherever it is,
  and fails when there is none.  What a look-up sees of them is said once and for all by
  `lookup_define` and `lookup_modify`.
-/
namespace ExprLang

/-- The bindings of one scope, each name at most once. -/
abbrev Frame (α : Type) := List (String × α)

namespace Frame

variable {α : Type}

/-- What a name is bound to. -/
def get? (name : String) : Frame α → Option α
  | [] => none
  | (n, a) :: rest => if n = name then some a else get? name rest

/-- Bind a name, in place of an earlier binding if it has one. -/
def put (name : String) (a : α) : Frame α → Frame α
  | [] => [(name, a)]
  | (n, b) :: rest => if n = name then (name, a) :: rest else (n, b) :: put name a rest

theorem get?_put (frame : Frame α) (name other : String) (a : α) :
    (frame.put name a).get? other = if name = other then some a else frame.get? other := by
  induction frame with
  | nil => rfl
  | cons binding rest ih =>
    obtain ⟨n, b⟩ := binding
    by_cases here : n = name
    · subst here
      by_cases asked : n = other <;> simp [put, get?, asked]
    · by_cases asked : n = other
      · subst asked
        simp [put, get?, here, Ne.symm here]
      · simp [put, get?, here, asked, ih]

end Frame

/-- A chain of scopes, innermost first. -/
inductive Scopes (α : Type) where
  | root (frame : Frame α)
  | child (frame : Frame α) (outer : Scopes α)

namespace Scopes

variable {α : Type}

/-! ## Opening and closing -/

/-- A single scope without names. -/
def empty : Scopes α := .root []

/-- Open a scope inside this one. -/
def push (scopes : Scopes α) : Scopes α := .child [] scopes

/-- Close the innermost scope.  The outermost one stays. -/
def pop : Scopes α → Scopes α
  | .root frame => .root frame
  | .child _ outer => outer

/-- How many scopes lie around the innermost one. -/
def depth : Scopes α → Nat
  | .root _ => 0
  | .child _ outer => outer.depth + 1

@[simp] theorem pop_push (scopes : Scopes α) : scopes.push.pop = scopes := rfl

@[simp] theorem depth_push (scopes : Scopes α) : scopes.push.depth = scopes.depth + 1 := rfl

/-! ## Reading -/

/-- The bindings of the innermost scope. -/
def inner : Scopes α → Frame α
  | .root frame => frame
  | .child frame _ => frame

/-- What the nearest binding of a name holds. -/
def lookup (name : String) : Scopes α → Option α
  | .root frame => frame.get? name
  | .child frame outer =>
    match frame.get? name with
    | some a => some a
    | none => outer.lookup name

/-- Whether a name is bound at all. -/
def contains (name : String) (scopes : Scopes α) : Bool := (scopes.lookup name).isSome

/-- Whether the innermost scope itself binds a name. -/
def definedHere (name : String) (scopes : Scopes α) : Bool := (scopes.inner.get? name).isSome

/-! ## Writing -/

/-- Bind a name in the innermost scope. -/
def define (name : String) (a : α) : Scopes α → Scopes α
  | .root frame => .root (frame.put name a)
  | .child frame outer => .child (frame.put name a) outer

/-- Apply a function to what the nearest binding of a name holds. -/
def modify (name : String) (f : α → α) : Scopes α → Scopes α
  | .root frame =>
    match frame.get? name with
    | some a => .root (frame.put name (f a))
    | none => .root frame
  | .child frame outer =>
    match frame.get? name with
    | some a => .child (frame.put name (f a)) outer
    | none => .child frame (outer.modify name f)

/-- Overwrite the nearest binding of a name, if it has one. -/
def assign? (name : String) (a : α) (scopes : Scopes α) : Option (Scopes α) :=
  if scopes.contains name then some (scopes.modify name fun _ => a) else none

/-- A single scope with the given bindings, of which later ones win. -/
def ofList (bindings : List (String × α)) : Scopes α :=
  bindings.foldl (fun scopes binding => scopes.define binding.1 binding.2) empty

/-! ## What a look-up sees -/

@[simp] theorem lookup_push (scopes : Scopes α) (name : String) :
    scopes.push.lookup name = scopes.lookup name := rfl

theorem lookup_define (scopes : Scopes α) (name other : String) (a : α) :
    (scopes.define name a).lookup other = if name = other then some a else scopes.lookup other := by
  cases scopes with
  | root frame => exact frame.get?_put name other a
  | child frame outer =>
    by_cases h : name = other <;> simp [define, lookup, Frame.get?_put, h]

theorem lookup_modify (scopes : Scopes α) (name other : String) (f : α → α) :
    (scopes.modify name f).lookup other =
      if name = other then (scopes.lookup other).map f else scopes.lookup other := by
  induction scopes with
  | root frame =>
    by_cases h : name = other
    · subst h
      cases bound : frame.get? name <;> simp [modify, lookup, bound, Frame.get?_put]
    · cases bound : frame.get? name <;> simp [modify, lookup, bound, Frame.get?_put, h]
  | child frame outer ih =>
    by_cases h : name = other
    · subst h
      cases bound : frame.get? name <;> simp [modify, lookup, bound, Frame.get?_put, ih]
    · cases bound : frame.get? name <;> simp [modify, lookup, bound, Frame.get?_put, h, ih]

end Scopes

/-! ## Computations in a scope of their own -/

/-- Run a computation between `enter` and `leave`.  Its state is left also when it fails. -/
def within {ε σ α : Type} (enter leave : σ → σ) (act : EStateM ε σ α) : EStateM ε σ α := fun s =>
  match act (enter s) with
  | .ok a s => .ok a (leave s)
  | .error e s => .error e (leave s)

end ExprLang
