/-
  READINGS: what a parser makes of tokens that are known.

  `Reads fits good outcome result` says how a run ends that only the bound on nesting can stop: if
  `fits` holds, with some good value and the outcome that goes with it, and otherwise with the
  complaint about nesting.  Where one parser runs behind another both have to fit.  The outcome is
  a function of the value, so that it may also be what a loop goes on to do with it.

  Single tokens and looks need no rule of their own: in front of a known token they are
  equations.
-/
import ExprLang.Parser.Basic

namespace ExprLang.Parser

variable {α β γ σ : Type} {c d : Bool}

/-- How a run ends that nothing but nesting can stop. -/
def Reads (fits : Prop) (good : α → Prop) (outcome : Except ParseError β)
    (result : α → Except ParseError β) : Prop :=
  (fits → ∃ a, good a ∧ outcome = result a) ∧
    (¬fits → ∃ loc, outcome = .error (.tooDeep loc))

section Rules

variable {fits fits' : Prop} {good : α → Prop} {good' : β → Prop}
  {last : Location} {ts us : List Token}

/-- The condition may be said in another way. -/
theorem Reads.congr {outcome : Except ParseError β} {result : α → Except ParseError β}
    (h : Reads fits good outcome result) (hfits : fits ↔ fits') : Reads fits' good outcome result :=
  ⟨fun h' => h.1 (hfits.2 h'), fun h' => h.2 fun h'' => h' (hfits.1 h'')⟩

/-- What is good of a value may be said of another value with the same outcome. -/
theorem Reads.image {outcome : Except ParseError γ} {result : α → Except ParseError γ}
    {result' : β → Except ParseError γ} (h : Reads fits good outcome result)
    (hresult : ∀ a, good a → ∃ b, good' b ∧ result a = result' b) :
    Reads fits good' outcome result' := by
  refine ⟨fun h' => ?_, h.2⟩
  obtain ⟨a, ha, houtcome⟩ := h.1 h'
  obtain ⟨b, hb, heq⟩ := hresult a ha
  exact ⟨b, hb, houtcome.trans heq⟩

/-- Another way to say what the outcome is. -/
theorem Reads.result {outcome : Except ParseError β} {result result' : α → Except ParseError β}
    (h : Reads fits good outcome result) (hresult : ∀ a, good a → result a = result' a) :
    Reads fits good outcome result' := h.image fun a ha => ⟨a, ha, hresult a ha⟩

/-- Where the outcome is how another run starts, both have to fit. -/
theorem Reads.trans {outcome : Except ParseError γ} {result : α → Except ParseError γ}
    {result' : β → Except ParseError γ} (h : Reads fits good outcome result)
    (h' : ∀ a, good a → Reads fits' good' (result a) result') :
    Reads (fits ∧ fits') good' outcome result' := by
  by_cases hfits : fits
  · obtain ⟨a, ha, houtcome⟩ := h.1 hfits
    rw [houtcome]
    exact (h' a ha).congr (and_iff_right hfits).symm
  · obtain ⟨loc, houtcome⟩ := h.2 hfits
    exact ⟨fun hboth => absurd hboth.1 hfits, fun _ => ⟨loc, houtcome⟩⟩

/-- What has been read is there, and nothing was too deep. -/
theorem reads_ok {a : α} (ha : good a) (h : fits) :
    Reads fits good (.ok (a, ts)) fun a => .ok (a, ts) :=
  ⟨fun _ => ⟨a, ha, rfl⟩, fun h' => absurd h h'⟩

/-- Nothing is read where the levels run out. -/
theorem reads_tooDeep {loc : Location} {result : α → Except ParseError β} (h : ¬fits) :
    Reads fits good (.error (.tooDeep loc)) result := ⟨fun h' => absurd h' h, fun _ => ⟨loc, rfl⟩⟩

/-- Behind a parser that has stopped the next one goes on. -/
theorem Reads.go {p : Parser c α} {k : α → Parser d γ}
    (hp : Reads fits good (p.run last ts) fun a => .ok (a, us)) :
    Reads fits good ((p.bind k).run last ts) fun a => (k a).run last us := by
  rw [run_bind]
  by_cases hfits : fits
  · obtain ⟨a, ha, hrun⟩ := hp.1 hfits
    rw [hrun]
    exact ⟨fun _ => ⟨a, ha, rfl⟩, fun h => absurd hfits h⟩
  · obtain ⟨loc, hrun⟩ := hp.2 hfits
    rw [hrun]
    exact reads_tooDeep hfits

/-- Both parts have to fit; a complaint of the first one is the complaint of the whole. -/
theorem Reads.bind {p : Parser c α} {k : α → Parser d γ}
    {result : β → Except ParseError (γ × List Token)}
    (hp : Reads fits good (p.run last ts) fun a => .ok (a, us))
    (hk : ∀ a, good a → Reads fits' good' ((k a).run last us) result) :
    Reads (fits ∧ fits') good' ((p.bind k).run last ts) result := hp.go.trans hk

/-- Building something from the result adds no condition. -/
theorem Reads.map {p : Parser c α} {f : α → β}
    (hp : Reads fits good (p.run last ts) fun a => .ok (a, us)) (hf : ∀ a, good a → good' (f a)) :
    Reads fits good' ((p.map f).run last ts) fun b => .ok (b, us) := by
  rw [run_map]
  by_cases hfits : fits
  · obtain ⟨a, ha, hrun⟩ := hp.1 hfits
    rw [hrun]
    exact reads_ok (hf a ha) hfits
  · obtain ⟨loc, hrun⟩ := hp.2 hfits
    rw [hrun]
    exact reads_tooDeep hfits

end Rules

/-! ## In front of a known token -/

variable {last : Location} {t : Token} {ts : List Token}

/-- This and the next ones run a parser in front of a token that is known to be acceptable. -/
theorem run_take_bind {accepts : Token → Bool} {refusal : Token → ParseError}
    {k : Token → Parser d β} (h : accepts t = true) :
    ((take accepts refusal).bind k).run last (t :: ts) = (k t).run last ts := by
  rw [run_bind]
  simp only [take, if_pos h]
  rfl

theorem run_take_map {accepts : Token → Bool} {refusal : Token → ParseError} {f : Token → β}
    (h : accepts t = true) :
    ((take accepts refusal).map f).run last (t :: ts) = .ok (f t, ts) := by
  rw [run_map]
  simp only [take, if_pos h]
  rfl

theorem run_token_bind {text : String} {k : Token → Parser d β} (h : t.is text = true) :
    ((token text).bind k).run last (t :: ts) = (k t).run last ts := run_take_bind h

theorem run_token_map {text : String} {f : Token → β} (h : t.is text = true) :
    ((token text).map f).run last (t :: ts) = .ok (f t, ts) := run_take_map h

/-- A look whose decision is known. -/
theorem run_look_of {k : Token → Parser c α} {p : Parser c α} (ht : current last ts = t)
    (h : k t = p) : (look k).run last ts = p.run last ts := by
  rw [run_look, ht, h]

/-- Looking at a token that is known chooses the rest. -/
theorem run_look_cons {k : Token → Parser c α} {p : Parser c α} (h : k t = p) :
    (look k).run last (t :: ts) = p.run last (t :: ts) := run_look_of rfl h

/-- A loop stops in front of a token that fails its test. -/
theorem run_loop_stop {test : Token → Bool} {step : σ → Parser true σ} (s : σ)
    (h : test (current last ts) = false) : (loop test step s).run last ts = .ok (s, ts) := by
  rw [run_loop, if_neg (by simp [h])]

/-- In front of a token that passes its test a loop goes round. -/
theorem Reads.loop {test : Token → Bool} {step : σ → Parser true σ} {s : σ} {us : List Token}
    {fits : Prop} {good : σ → Prop} (htest : test (current last ts) = true)
    (hstep : Reads fits good ((step s).run last ts) fun a => .ok (a, us)) :
    Reads fits good ((Parser.loop test step s).run last ts)
      fun a => (Parser.loop test step a).run last us := by
  rw [run_loop, if_pos htest, ← run_bind (d := false)]
  exact hstep.go

end ExprLang.Parser
