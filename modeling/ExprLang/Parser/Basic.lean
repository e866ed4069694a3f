/-
  PARSERS: readers of the front of a list of tokens.

  A `Parser c α` turns a list of tokens into an `α` and the tokens behind it, or refuses.  The
  index `c` says whether it is bound to take a token: the field `shrinks` proves it, and proves
  of every parser that it never gives back more than it was handed.  That is what lets
  `Parser.loop`, the only repetition, run without a bound of its own — each round takes a token.

  Behind the last token a parser sees an end marker.  It stands where the last token of the whole
  input does, so every `run` is also told that location.

  `run_bind`, `run_look` and `run_loop` say what the combinators do; the grammar is built from
  them alone.
-/
import ExprLang.Token
import ExprLang.Error.Parse

namespace ExprLang

/-- The complaint that this token is not what was wanted. -/
def Token.expected (t : Token) (wanted : Wanted) : ParseError :=
  .expected wanted t.spelling? t.location

/-- The token at the front, or the end marker. -/
def current (last : Location) : List Token → Token
  | [] => Token.endAt last
  | t :: _ => t

/-- A reader of tokens; `takes` says whether it is bound to take one when it succeeds. -/
structure Parser (takes : Bool) (α : Type) where
  run : Location → List Token → Except ParseError (α × List Token)
  shrinks : ∀ {last : Location} {ts : List Token} {a : α} {rest : List Token},
    run last ts = .ok (a, rest) → rest.length + takes.toNat ≤ ts.length

namespace Parser

variable {α β σ : Type} {c d : Bool}

/-! ## One result, or none -/

/-- Take nothing and give `a`. -/
def pure (a : α) : Parser false α where
  run _ ts := .ok (a, ts)
  shrinks h := by
    injection h with h
    injection h with _ h
    simp [h]

/-- Refuse. -/
def fail (e : ParseError) : Parser c α where
  run _ _ := .error e
  shrinks h := by contradiction

/-- Take the token at the front if it is acceptable. -/
def take (accepts : Token → Bool) (refusal : Token → ParseError) : Parser true Token where
  run last
    | [] => .error (refusal (Token.endAt last))
    | t :: rest => if accepts t then .ok (t, rest) else .error (refusal t)
  shrinks {_ ts _ _} h := by
    cases ts with
    | nil => contradiction
    | cons t ts =>
      simp only at h
      split at h
      · injection h with h
        injection h with _ h
        simp [h]
      · contradiction

/-! ## One after the other -/

/-- Run `p`, then what its result asks for. -/
def bind (p : Parser c α) (k : α → Parser d β) : Parser (c || d) β where
  run last ts :=
    match p.run last ts with
    | .ok (a, rest) => (k a).run last rest
    | .error e => .error e
  shrinks {last ts _ _} h := by
    split at h
    · rename_i a middle first
      have := p.shrinks first
      have := (k a).shrinks h
      cases c <;> cases d <;> simp_all <;> omega
    · contradiction

/-- Apply a function to the result. -/
def map (f : α → β) (p : Parser c α) : Parser c β where
  run last ts :=
    match p.run last ts with
    | .ok (a, rest) => .ok (f a, rest)
    | .error e => .error e
  shrinks {last ts _ _} h := by
    split at h
    · rename_i a rest first
      injection h with h
      injection h with _ h
      exact h ▸ p.shrinks first
    · contradiction

/-- Decide by the token at the front, without taking it. -/
def look (k : Token → Parser c α) : Parser c α where
  run last ts := (k (current last ts)).run last ts
  shrinks h := (k _).shrinks h

/-- Forget that a parser takes a token. -/
def relax (p : Parser c α) : Parser false α where
  run := p.run
  shrinks h := Nat.le_trans (Nat.le_add_right _ _) (p.shrinks h)

/-! ## Again and again -/

/-- While the token at the front passes the test, run a step on the state. -/
def loopRun (test : Token → Bool) (step : σ → Parser true σ) (last : Location) (s : σ)
    (ts : List Token) : Except ParseError (σ × List Token) :=
  if test (current last ts) then
    match _ : (step s).run last ts with
    | .ok (next, rest) => loopRun test step last next rest
    | .error e => .error e
  else .ok (s, ts)
termination_by ts.length
decreasing_by exact (step s).shrinks (by assumption)

/-- A loop gives back at most the tokens it was handed. -/
theorem length_of_loopRun {test : Token → Bool} {step : σ → Parser true σ} {last : Location}
    {s s' : σ} {ts rest : List Token} (h : loopRun test step last s ts = .ok (s', rest)) :
    rest.length ≤ ts.length := by
  fun_induction loopRun test step last s ts with
  | case1 s ts _ s₁ middle first ih =>
    have := (step s).shrinks first
    have := ih h
    simp at *
    omega
  | case2 => contradiction
  | case3 =>
    injection h with h
    injection h with _ h
    simp [h]

/-- While the token at the front passes the test, run a step on the state. -/
def loop (test : Token → Bool) (step : σ → Parser true σ) (s : σ) : Parser false σ where
  run last ts := loopRun test step last s ts
  shrinks h := length_of_loopRun h

/-! ## What the combinators do -/

theorem run_bind (p : Parser c α) (k : α → Parser d β) (last : Location) (ts : List Token) :
    (p.bind k).run last ts = (p.run last ts).bind fun r => (k r.1).run last r.2 := by
  simp only [bind, Except.bind]
  cases p.run last ts <;> rfl

theorem run_map (f : α → β) (p : Parser c α) (last : Location) (ts : List Token) :
    (p.map f).run last ts = (p.run last ts).map fun r => (f r.1, r.2) := by
  simp only [map, Except.map]
  cases p.run last ts <;> rfl

theorem run_look (k : Token → Parser c α) (last : Location) (ts : List Token) :
    (look k).run last ts = (k (current last ts)).run last ts := rfl

theorem run_relax (p : Parser c α) (last : Location) (ts : List Token) :
    p.relax.run last ts = p.run last ts := rfl

/-- A loop is one step and the loop again, as long as the test holds. -/
theorem run_loop (test : Token → Bool) (step : σ → Parser true σ) (s : σ) (last : Location)
    (ts : List Token) :
    (loop test step s).run last ts =
      if test (current last ts) then
        ((step s).run last ts).bind fun r => (loop test step r.1).run last r.2
      else .ok (s, ts) := by
  simp only [loop, Except.bind]
  rw [loopRun]
  split
  · split <;> simp_all
  · rfl

/-! ## Single tokens -/

/-- The token spelled `text`. -/
def token (text : String) : Parser true Token :=
  take (·.is text) (·.expected (.token text))

end Parser
end ExprLang
