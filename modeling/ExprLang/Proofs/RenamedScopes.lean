/-
  RENAMED SCOPES: what a chain of scopes does is the same under other names.

  Every operation on scopes commutes with a renaming, because no two names become one.  The chain
  that a program starts in holds reserved names only, which a renaming leaves alone, so it is not
  changed at all.

  `Parallel onState onError act act'` says that `act'` does to translated states what `act` does:
  it ends where `act` ends, with the same result or the translated error.  There is one rule for
  each way to build a computation.
-/
import ExprLang.Relabeling
import ExprLang.Proofs.CheckedCode

namespace ExprLang

/-! ## Two computations side by side -/

section Parallel

variable {ε δ σ τ α β : Type} {onState : σ → τ} {onError : ε → δ}

/-- The second computation does what the first one does, with states and errors translated. -/
def Parallel (onState : σ → τ) (onError : ε → δ) (act : EStateM ε σ α) (act' : EStateM δ τ α) :
    Prop :=
  ∀ s, act' (onState s) =
    match act s with
    | .ok a s' => .ok a (onState s')
    | .error e s' => .error (onError e) (onState s')

/-- A result that does not touch the state is the same on both sides. -/
theorem parallel_pure (a : α) :
    Parallel onState onError (pure a : EStateM ε σ α) (pure a : EStateM δ τ α) := fun _ => rfl

/-- Failing is translated when the error is. -/
theorem parallel_throw {e : ε} {e' : δ} (h : onError e = e') :
    Parallel onState onError (throw e : EStateM ε σ α) (throw e' : EStateM δ τ α) :=
  fun _ => h ▸ rfl

/-- The second part of a sequence starts from the same result. -/
theorem Parallel.bind {act : EStateM ε σ β} {act' : EStateM δ τ β} {k : β → EStateM ε σ α}
    {k' : β → EStateM δ τ α} (h : Parallel onState onError act act')
    (hk : ∀ b, Parallel onState onError (k b) (k' b)) :
    Parallel onState onError (act >>= k) (act' >>= k') := by
  intro s
  show EStateM.bind act' k' (onState s) = match EStateM.bind act k s with
    | .ok a s' => .ok a (onState s')
    | .error e s' => .error (onError e) (onState s')
  unfold EStateM.bind
  rw [h s]
  rcases act s with ⟨b, s'⟩ | ⟨e, s'⟩
  · exact hk b s'
  · rfl

/-- Both sides take the same branch. -/
theorem Parallel.ite {c : Prop} [Decidable c] {act₁ act₂ : EStateM ε σ α}
    {act₁' act₂' : EStateM δ τ α} (h₁ : Parallel onState onError act₁ act₁')
    (h₂ : Parallel onState onError act₂ act₂') :
    Parallel onState onError (if c then act₁ else act₂) (if c then act₁' else act₂') := by
  split
  · exact h₁
  · exact h₂

/-- A change of the state that goes with the translation. -/
theorem parallel_modify {f : σ → σ} {f' : τ → τ} (h : ∀ s, f' (onState s) = onState (f s)) :
    Parallel onState onError (modify f : EStateM ε σ Unit) (modify f' : EStateM δ τ Unit) :=
  fun s => congrArg (EStateM.Result.ok ()) (h s)

/-- A scope is entered before and left after on both sides, and both commute with the
    translation. -/
theorem Parallel.within {act : EStateM ε σ α} {act' : EStateM δ τ α} {enter leave : σ → σ}
    {enter' leave' : τ → τ} (h : Parallel onState onError act act')
    (henter : ∀ s, enter' (onState s) = onState (enter s))
    (hleave : ∀ s, leave' (onState s) = onState (leave s)) :
    Parallel onState onError (within enter leave act) (within enter' leave' act') := by
  intro s
  unfold ExprLang.within
  rw [henter, h (enter s)]
  rcases act (enter s) with ⟨a, s'⟩ | ⟨e, s'⟩ <;> simp only [hleave]

end Parallel

/-! ## Frames and chains of scopes -/

variable {α : Type} {r : Renaming}

namespace Renaming

/-- A renaming tells names apart as the names themselves do. -/
theorem apply_eq_iff {m n : String} : r m = r n ↔ m = n :=
  ⟨r.injective, congrArg r⟩

end Renaming

namespace Frame

/-- Renaming a frame goes binding by binding. -/
@[simp] theorem rename_cons (n : String) (a : α) (rest : Frame α) :
    Frame.rename r ((n, a) :: rest) = (r n, a) :: rest.rename r := rfl

/-- No two names become one, so a renamed name finds what the name found. -/
@[simp] theorem get?_rename (frame : Frame α) (n : String) :
    (frame.rename r).get? (r n) = frame.get? n := by
  induction frame with
  | nil => rfl
  | cons binding rest ih =>
    obtain ⟨m, b⟩ := binding
    simp only [rename_cons, get?, Renaming.apply_eq_iff, ih]

/-- A binding is overwritten exactly where it was, and added where it was missing. -/
@[simp] theorem put_rename (frame : Frame α) (n : String) (a : α) :
    (frame.rename r).put (r n) a = (frame.put n a).rename r := by
  induction frame with
  | nil => rfl
  | cons binding rest ih =>
    obtain ⟨m, b⟩ := binding
    simp only [rename_cons, put, Renaming.apply_eq_iff, ih]
    split <;> rfl

end Frame

namespace Scopes

/-- A new scope has no names to rename. -/
@[simp] theorem push_rename (scopes : Scopes α) :
    (scopes.rename r).push = scopes.push.rename r := rfl

/-- Leaving a scope forgets the same bindings under either name. -/
@[simp] theorem pop_rename (scopes : Scopes α) : (scopes.rename r).pop = scopes.pop.rename r := by
  cases scopes <;> rfl

/-- A look-up goes through the scopes in the same order, by `get?_rename` in each. -/
@[simp] theorem lookup_rename (scopes : Scopes α) (n : String) :
    (scopes.rename r).lookup (r n) = scopes.lookup n := by
  induction scopes with
  | root frame => exact frame.get?_rename n
  | child frame outer ih => simp only [rename, lookup, Frame.get?_rename, ih]

/-- A declaration goes into the innermost scope, by `put_rename`. -/
@[simp] theorem define_rename (scopes : Scopes α) (n : String) (a : α) :
    (scopes.rename r).define (r n) a = (scopes.define n a).rename r := by
  cases scopes <;> simp only [rename, define, Frame.put_rename]

/-- A change finds its binding in the same scope. -/
@[simp] theorem modify_rename (scopes : Scopes α) (n : String) (f : α → α) :
    (scopes.rename r).modify (r n) f = (scopes.modify n f).rename r := by
  induction scopes with
  | root frame =>
    simp only [rename, modify, Frame.get?_rename]
    split <;> simp only [rename, Frame.put_rename]
  | child frame outer ih =>
    simp only [rename, modify, Frame.get?_rename, ih]
    split <;> simp only [rename, Frame.put_rename]

/-- An assignment finds a variable exactly when there is one under the old name. -/
@[simp] theorem assign?_rename (scopes : Scopes α) (n : String) (a : α) :
    (scopes.rename r).assign? (r n) a = (scopes.assign? n a).map (Scopes.rename r) := by
  rcases hbound : scopes.lookup n with _ | b <;>
    simp [assign?, contains, hbound]

/-! ## The chain that a program starts in -/

/-- A chain that holds reserved names only is the same under other names. -/
theorem rename_ofList {bindings : List (String × α)}
    (h : ∀ binding ∈ bindings, binding.1 ∈ reservedNames) :
    (ofList bindings).rename r = ofList bindings := by
  have hfold : ∀ scopes : Scopes α, scopes.rename r = scopes →
      (bindings.foldl (fun scopes binding => scopes.define binding.1 binding.2) scopes).rename r
        = bindings.foldl (fun scopes binding => scopes.define binding.1 binding.2) scopes := by
    induction bindings with
    | nil => exact fun _ hscopes => hscopes
    | cons binding rest ih =>
      intro scopes hscopes
      refine ih (fun other hmem => h other (List.mem_cons_of_mem _ hmem)) _ ?_
      have hname : r binding.1 = binding.1 := r.reserved (h binding List.mem_cons_self)
      rw [← define_rename, hname, hscopes]
  exact hfold empty rfl

end Scopes

/-- The checker starts with the reserved names and no others, which a renaming keeps. -/
theorem Typing.rename_rootScopes : Typing.rootScopes.rename r = Typing.rootScopes := by
  refine Scopes.rename_ofList fun binding hmem => ?_
  obtain ⟨b, -, hb⟩ := List.mem_filterMap.1 hmem
  obtain ⟨ty, -, rfl⟩ := Option.map_eq_some_iff.1 hb
  exact Lowering.name_mem_reservedNames b

/-- So does the evaluator. -/
theorem Eval.rename_rootScopes : Eval.rootScopes.rename r = Eval.rootScopes := by
  refine Scopes.rename_ofList fun binding hmem => ?_
  obtain ⟨b, -, rfl⟩ := List.mem_map.1 hmem
  exact Lowering.name_mem_reservedNames b

/-- So does an empty draft, whose variables have not been minted yet. -/
theorem Draft.relabel_start {place : Location → Location} :
    (Draft.start reservedNames).relabel place r = Draft.start reservedNames := by
  have hscopes : (Draft.start reservedNames).scopes.rename r
      = (Draft.start reservedNames).scopes := by
    refine Scopes.rename_ofList fun binding hmem => ?_
    obtain ⟨n, hn, rfl⟩ := List.mem_map.1 hmem
    exact hn
  have hcode : (Draft.start reservedNames).code.map (Instr.move place) = #[] := Array.map_empty
  simp only [Draft.relabel, hscopes, hcode]
  rfl

end ExprLang
