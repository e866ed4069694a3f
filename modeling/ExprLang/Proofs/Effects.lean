/-
  EFFECTS: what a computation with a state and errors leads to.

  `Leads act s good bad` says that `act`, started in the state `s`, ends in a result and a state
  that are `good`, or in an error and a state that are `bad`.  Sequences are taken apart by
  `leads_bind`, and what was shown of the first part is weakened to what the second part needs
  by `Leads.mono`.

  For computations of which only the success matters, `bind_eq_ok` and `within_eq_ok` name the
  state in between instead.
-/
import ExprLang.Scopes

namespace ExprLang

variable {ε σ α β : Type}

/-! ## One after the other -/

/-- A sequence goes on where its first part has ended. -/
theorem bind_of_ok {act : EStateM ε σ β} {k : β → EStateM ε σ α} {s t : σ} {b : β}
    (h : act s = .ok b t) : (act >>= k) s = k b t := by
  show EStateM.bind act k s = _
  rw [EStateM.bind, h]

/-- It ends with its first part if this fails. -/
theorem bind_of_error {act : EStateM ε σ β} {k : β → EStateM ε σ α} {s t : σ} {e : ε}
    (h : act s = .error e t) : (act >>= k) s = .error e t := by
  show EStateM.bind act k s = _
  rw [EStateM.bind, h]

/-! ## Both endings at once -/

/-- A computation ends well or badly, and either way as described. -/
def Leads (act : EStateM ε σ α) (s : σ) (good : α → σ → Prop) (bad : ε → σ → Prop) : Prop :=
  match act s with
  | .ok a s' => good a s'
  | .error e s' => bad e s'

section

variable {good : α → σ → Prop} {bad : ε → σ → Prop} {s : σ}

/-- Nothing is left to be done. -/
@[simp] theorem leads_pure {a : α} : Leads (pure a) s good bad ↔ good a s := Iff.rfl

/-- A failure is judged by what is asked of failures. -/
@[simp] theorem leads_throw {e : ε} : Leads (throw e) s good bad ↔ bad e s := Iff.rfl

/-- What is asked of a sequence is asked of its second part, wherever the first one leads. -/
@[simp] theorem leads_bind {act : EStateM ε σ β} {k : β → EStateM ε σ α} :
    Leads (act >>= k) s good bad ↔ Leads act s (fun b s' => Leads (k b) s' good bad) bad := by
  show (match EStateM.bind act k s with | .ok a s' => good a s' | .error e s' => bad e s') ↔ _
  unfold Leads EStateM.bind
  rcases act s with ⟨b, s'⟩ | ⟨e, s'⟩ <;> exact Iff.rfl

/-- A step in a scope of its own leaves that scope however it ends. -/
theorem leads_within {enter leave : σ → σ} {act : EStateM ε σ α} :
    Leads (within enter leave act) s good bad ↔
      Leads act (enter s) (fun a s' => good a (leave s')) fun e s' => bad e (leave s') := by
  unfold Leads within
  rcases act (enter s) with ⟨a, s'⟩ | ⟨e, s'⟩ <;> exact Iff.rfl

/-- Less may be asked. -/
theorem Leads.mono {act : EStateM ε σ α} {good' : α → σ → Prop} {bad' : ε → σ → Prop}
    (h : Leads act s good bad) (hgood : ∀ a s', good a s' → good' a s')
    (hbad : ∀ e s', bad e s' → bad' e s') : Leads act s good' bad' := by
  unfold Leads at h ⊢
  rcases hact : act s with ⟨a, s'⟩ | ⟨e, s'⟩ <;> rw [hact] at h
  · exact hgood a s' h
  · exact hbad e s' h

/-- The second part of a sequence starts where the first one has led. -/
theorem Leads.bind {act : EStateM ε σ β} {k : β → EStateM ε σ α} {mid : β → σ → Prop}
    (h : Leads act s mid bad) (hk : ∀ b s', mid b s' → Leads (k b) s' good bad) :
    Leads (act >>= k) s good bad :=
  leads_bind.2 (h.mono hk fun _ _ he => he)

/-- Two descriptions of one computation hold together. -/
theorem Leads.and {act : EStateM ε σ α} {good' : α → σ → Prop} {bad' : ε → σ → Prop}
    (h : Leads act s good bad) (h' : Leads act s good' bad') :
    Leads act s (fun a s' => good a s' ∧ good' a s') fun e s' => bad e s' ∧ bad' e s' := by
  unfold Leads at h h' ⊢
  rcases hact : act s with ⟨a, s'⟩ | ⟨e, s'⟩ <;> rw [hact] at h h' <;> exact ⟨h, h'⟩

/-- More is known of a success. -/
theorem Leads.also {act : EStateM ε σ α} {good' : α → σ → Prop} {bad' : ε → σ → Prop}
    (h : Leads act s good bad) (h' : Leads act s good' bad') :
    Leads act s (fun a s' => good a s' ∧ good' a s') bad :=
  (h.and h').mono (fun _ _ hgood => hgood) fun _ _ hbad => hbad.1

end

/-! ## Success alone -/

/-- A sequence succeeds when both of its parts do. -/
theorem bind_eq_ok {act : EStateM ε σ β} {k : β → EStateM ε σ α} {s s' : σ} {a : α} :
    (act >>= k) s = .ok a s' ↔ ∃ b t, act s = .ok b t ∧ k b t = .ok a s' := by
  show EStateM.bind act k s = _ ↔ _
  unfold EStateM.bind
  rcases act s with ⟨b, t⟩ | ⟨e, t⟩
  · refine ⟨fun h => ⟨b, t, rfl, h⟩, ?_⟩
    rintro ⟨_, _, ⟨⟩, h⟩
    exact h
  · simp

/-- Nothing is done and nothing is changed. -/
theorem pure_eq_ok {s s' : σ} {a b : α} :
    (pure a : EStateM ε σ α) s = .ok b s' ↔ a = b ∧ s = s' := by
  show (EStateM.Result.ok a s : EStateM.Result ε σ α) = _ ↔ _
  simp

/-- A failure is no success. -/
theorem throw_eq_ok {s s' : σ} {e : ε} {a : α} :
    (throw e : EStateM ε σ α) s = .ok a s' ↔ False := by
  show (EStateM.Result.error e s : EStateM.Result ε σ α) = _ ↔ _
  simp

/-- What is undone afterwards is undone from wherever the inner part has ended. -/
theorem within_eq_ok {enter leave : σ → σ} {act : EStateM ε σ α} {s s' : σ} {a : α} :
    within enter leave act s = .ok a s' ↔ ∃ t, act (enter s) = .ok a t ∧ leave t = s' := by
  unfold within
  rcases act (enter s) with ⟨b, t⟩ | ⟨e, t⟩
  · simp only [EStateM.Result.ok.injEq]
    refine ⟨fun ⟨ha, hs⟩ => ⟨t, ⟨ha, rfl⟩, hs⟩, ?_⟩
    rintro ⟨_, ⟨ha, rfl⟩, hs⟩
    exact ⟨ha, hs⟩
  · simp

end ExprLang
