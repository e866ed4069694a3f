/-
  LONGER INPUT: what a parser does when more tokens follow.

  A parser that is handed a few more tokens at the end sees nothing of them until it has used up
  the old ones.  So as long as it stops in front of a token it goes on as before (`accepts`), and
  an error that blames a token stays what it was (`refuses`).  Only at the end marker can more
  tokens change its mind, and there the errors say that the input has ended.

  One error does not: an expression nested too deeply may be refused in front of the end marker.
  More tokens then show whether an expression stands there at all.  `Exceptions` names the tokens
  with which there is none: with such a token at the front of what follows, the parser may get
  past the place where it gave up.

  `Firm` collects these facts, and there is one rule for each combinator.
-/
import ExprLang.Parser.Basic

namespace ExprLang

/-- Whether an error says that the input has ended. -/
def ParseError.AtEnd (e : ParseError) : Prop := ∃ wanted loc, e = .expected wanted none loc

/-- Whether an error complains about nesting. -/
def ParseError.IsDeep (e : ParseError) : Prop := ∃ loc, e = .tooDeep loc

/-- A complaint about nesting says nothing of the end. -/
theorem ParseError.IsDeep.not_atEnd {e : ParseError} (h : e.IsDeep) : ¬e.AtEnd := by
  obtain ⟨loc, rfl⟩ := h
  rintro ⟨wanted, loc', h⟩
  contradiction

/-- A missing token at the end marker is an error about the end. -/
theorem Token.expected_endAt (wanted : Wanted) (loc : Location) :
    ((Token.endAt loc).expected wanted).AtEnd := ⟨wanted, loc, rfl⟩

namespace Parser

/-! ## Getting past the end -/

/-- What a token does that stands where an expression is wanted and starts none: it closes what
    was opened, or it starts a declaration. -/
inductive Turn where
  | closes
  | declares

/-- Tokens behind which another token makes no expression. -/
abbrev Exceptions := Turn → List Token → Token → Prop

/-- Exceptions stay exceptions with more tokens in front. -/
def Under (small large : Exceptions) : Prop :=
  ∀ turn front ts t, small turn ts t → large turn (front ++ ts) t

/-- The exceptions behind a token. -/
def Exceptions.behind (exc : Exceptions) (first : Token) : Exceptions :=
  fun turn ts t => exc turn (first :: ts) t

/-- A token in front makes no difference to exceptions that are closed under more tokens. -/
theorem Under.behind {exc : Exceptions} (h : Under exc exc) (first : Token) :
    Under exc (exc.behind first) :=
  fun turn front ts t hexc => h turn (first :: front) ts t hexc

variable {α β σ : Type} {c d : Bool} {exc exc' : Exceptions}

/-- What becomes of an expression nested too deeply at the end of `ts` when `t` follows: the same,
    unless there is no expression after all.  A declaration does not help, since its value
    nests just as deeply. -/
def Again (exc : Exceptions) (ts : List Token) (t : Token) (outcome : Except ParseError β) : Prop :=
  (∃ loc, outcome = .error (.tooDeep loc)) ∨ exc .closes ts t ∨
    exc .declares ts t ∧ ∃ e, outcome = .error e

/-- What becomes of an error at the end of `ts` when more tokens follow. -/
def Persists (exc : Exceptions) (p : Parser c α) (ts : List Token) (e : ParseError) : Prop :=
  e.AtEnd ∨ (∀ last more, p.run last (ts ++ more) = .error e) ∨
    e.IsDeep ∧ ∀ last t more, Again exc ts t (p.run last (ts ++ t :: more))

/-- An error persists in all that refuses what `p` refuses. -/
theorem Persists.mono {p : Parser c α} {q : Parser d β} {ts ts' : List Token} {e : ParseError}
    (h : Persists exc p ts e) (hexc : ∀ turn t, exc turn ts t → exc' turn ts' t)
    (hrun : ∀ {last more e'}, p.run last (ts ++ more) = .error e' →
      q.run last (ts' ++ more) = .error e') : Persists exc' q ts' e := by
  rcases h with hend | hfinal | ⟨hdeep, hagain⟩
  · exact .inl hend
  · exact .inr (.inl fun last more => hrun (hfinal last more))
  · refine .inr (.inr ⟨hdeep, fun last t more => ?_⟩)
    rcases hagain last t more with ⟨loc, herror⟩ | hcloses | ⟨hdeclares, e', herror⟩
    · exact .inl ⟨loc, hrun herror⟩
    · exact .inr (.inl (hexc _ t hcloses))
    · exact .inr (.inr ⟨hexc _ t hdeclares, e', hrun herror⟩)

/-! ## Firm parsers -/

/-- What stays as it is when more tokens follow. -/
structure Firm (exc : Exceptions) (p : Parser c α) : Prop where
  /-- A parser that stops in front of a token goes on as before. -/
  accepts : ∀ {last ts a rest}, p.run last ts = .ok (a, rest) → ∃ used, ts = used ++ rest ∧
    (rest = [] ∨ ∀ last' more, p.run last' (ts ++ more) = .ok (a, rest ++ more))
  /-- An error is about the end, or final, or about nesting. -/
  refuses : ∀ {last ts e}, p.run last ts = .error e → Persists exc p ts e

/-- Handed nothing, a parser can only complain about the end. -/
def Mild (p : Parser c α) : Prop := ∀ {last e}, p.run last [] = .error e → e.AtEnd

/-- A parser that is bound to take a token takes none from nothing. -/
theorem not_run_nil {p : Parser true α} {last : Location} {a : α} {rest : List Token} :
    p.run last [] ≠ .ok (a, rest) := by
  intro h
  have := p.shrinks h
  simp at this

/-- From nothing, nothing is left. -/
theorem rest_of_run_nil {p : Parser c α} {last : Location} {a : α} {rest : List Token}
    (h : p.run last [] = .ok (a, rest)) : rest = [] := by
  have := p.shrinks h
  simp only [List.length_nil] at this
  exact List.length_eq_zero_iff.1 (by omega)

/-- A parser that is firm up to some exceptions is so up to more of them. -/
theorem Firm.mono {p : Parser c α} (h : Firm exc p) (hexc : Under exc exc') : Firm exc' p where
  accepts hrun := h.accepts hrun
  refuses hrun := (h.refuses hrun).mono (fun turn => hexc turn [] _) id

/-- A parser that takes nothing does not see what follows. -/
theorem firm_pure (a : α) : Firm exc (pure a) where
  accepts {last ts b rest} hrun := by
    simp only [pure, Except.ok.injEq, Prod.mk.injEq] at hrun
    obtain ⟨rfl, rfl⟩ := hrun
    exact ⟨[], rfl, .inr fun _ _ => rfl⟩
  refuses hrun := by contradiction

/-- A parser that always fails does so whatever follows. -/
theorem firm_fail (e : ParseError) : Firm exc (fail e : Parser c α) where
  accepts hrun := by contradiction
  refuses {last ts e'} hrun := by
    obtain rfl := Except.error.inj hrun
    exact .inr (.inl fun _ _ => rfl)

/-- What is made of the result does not matter. -/
theorem firm_map {p : Parser c α} {f : α → β} (h : Firm exc p) : Firm exc (p.map f) where
  accepts {last ts b rest} hrun := by
    rw [run_map] at hrun
    rcases hfirst : p.run last ts with e | ⟨a, left⟩ <;> rw [hfirst] at hrun
    · contradiction
    · obtain ⟨used, hused, hmore⟩ := h.accepts hfirst
      simp only [Except.map, Except.ok.injEq, Prod.mk.injEq] at hrun
      obtain ⟨rfl, rfl⟩ := hrun
      refine ⟨used, hused, hmore.imp id fun hmore last' more => ?_⟩
      rw [run_map, hmore]
      rfl
  refuses {last ts e} hrun := by
    rw [run_map] at hrun
    rcases hfirst : p.run last ts with e' | ⟨a, left⟩ <;> rw [hfirst] at hrun
    · obtain rfl := Except.error.inj hrun
      refine (h.refuses hfirst).mono (fun _ _ => id) fun herror => ?_
      rw [run_map, herror]
      rfl
    · contradiction

/-- Whether a parser is known to take a token does not matter. -/
theorem firm_relax {p : Parser c α} (h : Firm exc p) : Firm exc p.relax where
  accepts hrun := h.accepts hrun
  refuses hrun := h.refuses hrun

/-- The choice between two parsers is made before they see a token. -/
theorem firm_ite {b : Prop} [Decidable b] {p q : Parser c α} (hp : b → Firm exc p)
    (hq : ¬b → Firm exc q) : Firm exc (if b then p else q) := by
  split
  · rename_i hb
    exact hp hb
  · rename_i hb
    exact hq hb

/-! ## Tokens -/

variable {accepts : Token → Bool} {refusal : Token → ParseError}

/-- A missing token is an error about the end, if its refusal says so there. -/
theorem mild_take (hend : ∀ loc, (refusal (Token.endAt loc)).AtEnd) :
    Mild (take accepts refusal) := fun hrun => by
  obtain rfl := Except.error.inj hrun
  exact hend _

/-- Of a token and what follows it, only a missing token is about the end.  What the token stands
    in front of counts from behind it. -/
theorem firm_take_bind {k : Token → Parser d β} (hend : ∀ loc, (refusal (Token.endAt loc)).AtEnd)
    (hk : ∀ t, accepts t = true → Firm (exc.behind t) (k t)) :
    Firm exc ((take accepts refusal).bind k) := by
  have hcons (last : Location) (t : Token) (ts : List Token) :
      ((take accepts refusal).bind k).run last (t :: ts)
        = if accepts t = true then (k t).run last ts else .error (refusal t) := by
    rw [run_bind]
    simp only [take]
    split <;> rfl
  constructor
  · intro last ts b rest hrun
    cases ts with
    | nil => contradiction
    | cons t ts =>
      rw [hcons] at hrun
      split at hrun
      · rename_i haccepts
        obtain ⟨used, hused, hmore⟩ := (hk t haccepts).accepts hrun
        refine ⟨t :: used, by rw [hused, List.cons_append], hmore.imp id fun hmore last' more => ?_⟩
        rw [List.cons_append, hcons, if_pos haccepts, hmore]
      · contradiction
  -- an error at the end marker is about the end, and any other token is refused for good
  · intro last ts e hrun
    cases ts with
    | nil =>
      obtain rfl := Except.error.inj hrun
      exact .inl (hend _)
    | cons t ts =>
      rw [hcons] at hrun
      split at hrun
      · rename_i haccepts
        refine ((hk t haccepts).refuses hrun).mono (fun _ _ => id) fun herror => ?_
        rw [List.cons_append, hcons, if_pos haccepts, herror]
      · rename_i haccepts
        obtain rfl := Except.error.inj hrun
        refine .inr (.inl fun last' more => ?_)
        rw [List.cons_append, hcons, if_neg haccepts]

/-- So a token that is refused is refused for good, unless it is the end marker. -/
theorem firm_take (hend : ∀ loc, (refusal (Token.endAt loc)).AtEnd) :
    Firm exc (take accepts refusal) := by
  have hpure : take accepts refusal = ((take accepts refusal).bind pure : Parser true Token) := by
    simp only [take, bind, pure, Parser.mk.injEq]
    funext last ts
    cases ts with
    | nil => rfl
    | cons t ts =>
      simp only
      split <;> split <;> simp_all
  rw [hpure]
  exact firm_take_bind hend fun t _ => firm_pure t

/-! ## One after the other -/

/-- A token that is wanted behind a parser cannot be looked for before the parser has stopped, so
    what comes second has to be mild. -/
theorem firm_bind {p : Parser c α} {k : α → Parser d β} (hp : Firm exc p)
    (hk : ∀ a, Firm exc' (k a)) (hmild : ∀ a, Mild (k a)) (hexc : Under exc' exc) :
    Firm exc (p.bind k) := by
  constructor
  · intro last ts b rest hrun
    rw [run_bind] at hrun
    rcases hfirst : p.run last ts with e | ⟨a, middle⟩ <;> rw [hfirst] at hrun
    · contradiction
    · obtain ⟨used, rfl, hgoes⟩ := hp.accepts hfirst
      obtain ⟨used', rfl, hmore⟩ := (hk a).accepts hrun
      refine ⟨used ++ used', (List.append_assoc ..).symm, ?_⟩
      -- where the first parser has used up everything, so has the second one
      rcases hgoes with hnil | hgoes
      · exact .inl (List.append_eq_nil_iff.1 hnil).2
      · refine hmore.imp id fun hmore last' more => ?_
        rw [run_bind, hgoes]
        exact hmore last' more
  · intro last ts e hrun
    rw [run_bind] at hrun
    rcases hfirst : p.run last ts with e' | ⟨a, middle⟩ <;> rw [hfirst] at hrun
    · obtain rfl := Except.error.inj hrun
      refine (hp.refuses hfirst).mono (fun _ _ => id) fun herror => ?_
      rw [run_bind, herror]
      rfl
    · obtain ⟨used, rfl, hgoes⟩ := hp.accepts hfirst
      rcases hgoes with rfl | hgoes
      · exact .inl (hmild a hrun)
      · refine ((hk a).refuses hrun).mono (fun turn => hexc turn used middle) fun herror => ?_
        rw [run_bind, hgoes]
        exact herror

/-- Behind a parser that is bound to take a token nothing is asked of nothing. -/
theorem mild_bind {p : Parser true α} {k : α → Parser d β} (h : Mild p) : Mild (p.bind k) := by
  intro last e hrun
  rw [run_bind] at hrun
  rcases hfirst : p.run last [] with e' | ⟨a, rest⟩ <;> rw [hfirst] at hrun
  · obtain rfl := Except.error.inj hrun
    exact h hfirst
  · exact absurd hfirst not_run_nil

/-- What is made of the result does not matter here either. -/
theorem mild_map {p : Parser c α} {f : α → β} (h : Mild p) : Mild (p.map f) := by
  intro last e hrun
  rw [run_map] at hrun
  rcases hfirst : p.run last [] with e' | ⟨a, rest⟩ <;> rw [hfirst] at hrun
  · obtain rfl := Except.error.inj hrun
    exact h hfirst
  · contradiction

/-- A look sees the same token as before, unless it saw the end marker. -/
theorem firm_look {k : Token → Parser c α} (hk : ∀ t, Firm exc (k t))
    (hend : ∀ {last e}, (look k).run last [] = .error e → Persists exc (look k) [] e) :
    Firm exc (look k) := by
  constructor
  · intro last ts a rest hrun
    cases ts with
    | nil =>
      obtain rfl := rest_of_run_nil hrun
      exact ⟨[], rfl, .inl rfl⟩
    | cons t ts => exact (hk t).accepts hrun
  · intro last ts e hrun
    cases ts with
    | nil => exact hend hrun
    | cons t ts => exact (hk t).refuses hrun

/-- A parser that looks at the next token is firm if at the end it only complains about the end. -/
theorem firm_look_mild {k : Token → Parser c α} (hk : ∀ t, Firm exc (k t)) (h : Mild (look k)) :
    Firm exc (look k) := firm_look hk fun hrun => .inl (h hrun)

/-! ## Parsers that refuse everything -/

/-- A parser that accepts nothing. -/
def Never (p : Parser c α) : Prop := ∀ last ts, ∃ e, p.run last ts = .error e

/-- What cannot succeed cannot be followed by anything. -/
theorem never_bind {p : Parser c α} {k : α → Parser d β} (h : Never p) : Never (p.bind k) := by
  intro last ts
  obtain ⟨e, he⟩ := h last ts
  exact ⟨e, by rw [run_bind, he]; rfl⟩

/-- Nor can anything succeed that is followed by what cannot. -/
theorem never_bind_of_forall {p : Parser c α} {k : α → Parser d β} (h : ∀ a, Never (k a)) :
    Never (p.bind k) := by
  intro last ts
  rw [run_bind]
  rcases p.run last ts with e | ⟨a, rest⟩
  · exact ⟨e, rfl⟩
  · exact h a last rest

theorem never_map {p : Parser c α} {f : α → β} (h : Never p) : Never (p.map f) := by
  intro last ts
  obtain ⟨e, he⟩ := h last ts
  exact ⟨e, by rw [run_map, he]; rfl⟩

/-- What is wanted behind a parser that accepts nothing does not matter. -/
theorem firm_bind_never {p : Parser c α} {k : α → Parser d β} (hp : Firm exc p) (h : Never p) :
    Firm exc (p.bind k) := by
  have hbind {last : Location} {ts : List Token} {e : ParseError}
      (he : p.run last ts = .error e) : (p.bind k).run last ts = .error e := by
    rw [run_bind, he]
    rfl
  constructor
  · intro last ts b rest hrun
    obtain ⟨e, he⟩ := h last ts
    rw [hbind he] at hrun
    contradiction
  · intro last ts e hrun
    obtain ⟨e', he⟩ := h last ts
    rw [hbind he] at hrun
    obtain rfl := Except.error.inj hrun
    exact (hp.refuses he).mono (fun _ _ => id) hbind

/-! ## Again and again -/

section Loop

variable {test : Token → Bool} {step : σ → Parser true σ}

/-- Handed nothing, a loop refuses what its step refuses. -/
theorem loopRun_nil {last : Location} {s : σ} {e : ParseError}
    (h : loopRun test step last s [] = .error e) : (step s).run last [] = .error e := by
  rw [loopRun] at h
  split at h
  · split at h
    · rename_i hround
      exact absurd hround not_run_nil
    · rename_i e' hround
      obtain rfl := Except.error.inj h
      exact hround
  · contradiction

/-- A loop whose steps are mild is mild. -/
theorem mild_loop (h : ∀ s, Mild (step s)) (s : σ) : Mild (loop test step s) :=
  fun hrun => h s (loopRun_nil hrun)

/-- In front of a token the loop begins the same round, whatever follows. -/
theorem run_loop_more {last : Location} {ts : List Token} (s : σ) (hne : ts ≠ [])
    (htest : test (current last ts) = true) (last' : Location) (more : List Token) :
    (loop test step s).run last' (ts ++ more)
      = ((step s).run last' (ts ++ more)).bind fun r => (loop test step r.1).run last' r.2 := by
  cases ts with
  | nil => contradiction
  | cons t ts => rw [run_loop, if_pos (by exact htest)]

/-- A round that goes on as before leaves the loop to go on. -/
theorem run_loop_round {last : Location} {ts middle : List Token} {s next : σ}
    (htest : test (current last ts) = true) (hround : (step s).run last ts = .ok (next, middle))
    (hgoes : ∀ last' more, (step s).run last' (ts ++ more) = .ok (next, middle ++ more))
    (last' : Location) (more : List Token) :
    (loop test step s).run last' (ts ++ more)
      = (loop test step next).run last' (middle ++ more) := by
  have hne : ts ≠ [] := fun hnil => not_run_nil (hnil ▸ hround)
  rw [run_loop_more s hne htest, hgoes]
  rfl

/-- A loop whose steps are firm and mild is firm. -/
theorem firm_loop (hstep : ∀ s, Firm exc (step s)) (hmild : ∀ s, Mild (step s))
    (hexc : Under exc exc) (s : σ) : Firm exc (loop test step s) := by
  constructor
  · intro last ts s' rest hrun
    change loopRun test step last s ts = .ok (s', rest) at hrun
    fun_induction loopRun test step last s ts with
    | case1 s ts htest next middle hround ih =>
      obtain ⟨used, rfl, hgoes⟩ := (hstep s).accepts hround
      obtain ⟨used', rfl, hmore⟩ := ih hrun
      refine ⟨used ++ used', (List.append_assoc ..).symm, ?_⟩
      rcases hgoes with hnil | hgoes
      · exact .inl (List.append_eq_nil_iff.1 hnil).2
      · refine hmore.imp id fun hmore last' more => ?_
        rw [run_loop_round htest hround hgoes]
        exact hmore last' more
    | case2 => contradiction
    | case3 s ts htest =>
      simp only [Except.ok.injEq, Prod.mk.injEq] at hrun
      obtain ⟨rfl, rfl⟩ := hrun
      refine ⟨[], rfl, ?_⟩
      cases ts with
      | nil => exact .inl rfl
      | cons t others =>
        refine .inr fun last' more => ?_
        rw [run_loop, if_neg (by exact htest)]
  · intro last ts e hrun
    change loopRun test step last s ts = .error e at hrun
    fun_induction loopRun test step last s ts with
    | case1 s ts htest next middle hround ih =>
      -- the round is as it was, so the rest decides
      obtain ⟨used, rfl, hgoes⟩ := (hstep s).accepts hround
      rcases hgoes with rfl | hgoes
      · exact .inl (hmild next (loopRun_nil hrun))
      · refine (ih hrun).mono (fun turn => hexc turn used middle) fun herror => ?_
        rw [run_loop_round htest hround hgoes]
        exact herror
    | case2 s ts htest e' hround =>
      obtain rfl := Except.error.inj hrun
      by_cases hne : ts = []
      · subst hne
        exact .inl (hmild s hround)
      · refine ((hstep s).refuses hround).mono (fun _ _ => id) fun herror => ?_
        rw [run_loop_more s hne htest, herror]
        rfl
    | case3 => contradiction

/-- A loop whose step accepts nothing either stops at once or refuses.  Handed nothing it tries a
    round; a token that stops it gets it past that. -/
theorem firm_loop_never (hstep : ∀ s, Firm exc (step s)) (hnever : ∀ s, Never (step s))
    (hdeep : ∀ {s last e}, (step s).run last [] = .error e → e.IsDeep)
    (hstop : ∀ t, test t = false → exc .closes [] t) (s : σ) : Firm exc (loop test step s) := by
  constructor
  · intro last ts s' rest hrun
    rw [run_loop] at hrun
    split at hrun
    · obtain ⟨e, he⟩ := hnever s last ts
      rw [he] at hrun
      contradiction
    · rename_i htest
      simp only [Except.ok.injEq, Prod.mk.injEq] at hrun
      obtain ⟨rfl, rfl⟩ := hrun
      refine ⟨[], rfl, ?_⟩
      cases ts with
      | nil => exact .inl rfl
      | cons t others =>
        refine .inr fun last' more => ?_
        rw [run_loop, if_neg (by exact htest)]
  · intro last ts e hrun
    rw [run_loop] at hrun
    split at hrun
    · rename_i htest
      obtain ⟨e', he⟩ := hnever s last ts
      rw [he] at hrun
      obtain rfl := Except.error.inj hrun
      by_cases hne : ts = []
      · subst hne
        obtain ⟨loc, rfl⟩ := hdeep he
        refine .inr (.inr ⟨⟨loc, rfl⟩, fun last' t more => ?_⟩)
        rcases htest' : test t with _ | _
        · exact .inr (.inl (hstop t htest'))
        · -- the same round, with a token to look at
          have herror {e : ParseError} (he : (step s).run last' (t :: more) = .error e) :
              (loop test step s).run last' (t :: more) = .error e := by
            rw [run_loop, if_pos (by exact htest'), he]
            rfl
          rcases (hstep s).refuses he with hend | hfinal | ⟨-, hagain⟩
          · exact absurd hend (ParseError.IsDeep.not_atEnd ⟨loc, rfl⟩)
          · exact .inl ⟨loc, herror (hfinal last' (t :: more))⟩
          · rcases hagain last' t more with ⟨loc', he'⟩ | hcloses | ⟨hdeclares, e', he'⟩
            · exact .inl ⟨loc', herror he'⟩
            · exact .inr (.inl hcloses)
            · exact .inr (.inr ⟨hdeclares, e', herror he'⟩)
      · refine ((hstep s).refuses he).mono (fun _ _ => id) fun herror => ?_
        rw [run_loop_more s hne htest, herror]
        rfl
    · contradiction

end Loop

end Parser
end ExprLang
