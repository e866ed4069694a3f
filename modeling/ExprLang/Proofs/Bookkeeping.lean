/-
  BOOKKEEPING: every routine of the descent ends, and leaves the cursor as it should.

  The routines of `Expr.Descent` carry no measure.  `Performs` says of a routine, at a depth, what
  one could wish for: from every place at this depth it ends, it passes only places where a cursor
  can stand and none above its level, it is back on its level at the end, and it has come to the
  same as a rule of the grammar.  There is one lemma for each way to join routines and one for each
  routine.

  Two inductions make the routines end.  A loop goes on with fewer tokens than before, because the
  rule for its rounds is bound to take one (`performs_loop`).  A call of an expression has one level
  less left, and without any it is refused (`level_nested`).
-/
import Mathlib
import ExprLang.Expr.Descent

namespace ExprLang

/-! ## Places and walks -/

/-- A cursor can stand here: not behind the end of the tokens, and not deeper than is allowed. -/
structure Cursor.Sound (tokens : List Token) (place : Cursor) : Prop where
  inside : place.position ≤ tokens.length
  bounded : place.depth ≤ maxDepth

/-- A place that the cursor may come to from another one without leaving its level. -/
structure Cursor.Beyond (tokens : List Token) (origin place : Cursor) : Prop
    extends Cursor.Sound tokens place where
  forward : origin.position ≤ place.position
  deeper : origin.depth ≤ place.depth

/-- A walk has gone on, over such places only, and is back on its level. -/
structure Walk.Returns (tokens : List Token) (w w' : Walk) : Prop where
  here : w.here.Beyond tokens w'.here
  level : w'.here.depth = w.here.depth
  trail : ∃ between, w'.trail = between ++ w.trail ∧ ∀ place ∈ between, w.here.Beyond tokens place

section

variable {tokens : List Token} {w w' w'' : Walk}

/-- Every place is a place that one can come to from itself. -/
theorem Cursor.Sound.beyond_self {place : Cursor} (h : place.Sound tokens) :
    place.Beyond tokens place := ⟨h, Nat.le_refl _, Nat.le_refl _⟩

/-- Going on twice is going on. -/
theorem Cursor.Beyond.trans {a b c : Cursor} (hab : a.Beyond tokens b) (hbc : b.Beyond tokens c) :
    a.Beyond tokens c :=
  ⟨hbc.toSound, Nat.le_trans hab.forward hbc.forward, Nat.le_trans hab.deeper hbc.deeper⟩

namespace Walk.Returns

/-- A routine that stays where it is has returned. -/
theorem refl (h : w.here.Sound tokens) : w.Returns tokens w :=
  ⟨h.beyond_self, rfl, [], rfl, nofun⟩

/-- Two routines that return one after the other have returned from both. -/
theorem trans (h : w.Returns tokens w') (h' : w'.Returns tokens w'') : w.Returns tokens w'' := by
  obtain ⟨between, htrail, hbetween⟩ := h.trail
  obtain ⟨between', htrail', hbetween'⟩ := h'.trail
  refine ⟨h.here.trans h'.here, h'.level.trans h.level, between' ++ between, ?_, ?_⟩
  · rw [htrail', htrail, List.append_assoc]
  · intro place hplace
    rcases List.mem_append.1 hplace with hlater | hearlier
    · exact h.here.trans (hbetween' place hlater)
    · exact hbetween place hearlier

/-- One move, to a place on the level of the walk. -/
theorem move {place : Cursor} (h : w.here.Beyond tokens place)
    (hlevel : place.depth = w.here.depth) : w.Returns tokens (w.to place) := by
  refine ⟨h, hlevel, [place], rfl, fun other hother => ?_⟩
  rwa [List.mem_singleton.1 hother]

/-- Down one level, on from there, and up again. -/
theorem around {place : Cursor} (h : w.here.Beyond tokens place)
    (hlevel : place.depth = w.here.depth + 1) (hreturns : (w.to place).Returns tokens w') :
    w.Returns tokens (w'.to { w'.here with depth := w'.here.depth - 1 }) := by
  have hup : w'.here.depth - 1 = w.here.depth := by
    rw [hreturns.level, Walk.to, hlevel, Nat.add_sub_cancel]
  obtain ⟨between, htrail, hbetween⟩ := hreturns.trail
  have hend : w.here.Beyond tokens { w'.here with depth := w'.here.depth - 1 } :=
    ⟨⟨hreturns.here.inside, hup ▸ Nat.le_trans h.deeper h.bounded⟩,
      Nat.le_trans h.forward hreturns.here.forward, Nat.le_of_eq hup.symm⟩
  refine ⟨hend, hup, [{ w'.here with depth := w'.here.depth - 1 }] ++ (between ++ [place]), ?_, ?_⟩
  · simp [Walk.to, htrail]
  · intro other hother
    rcases List.mem_append.1 hother with hlast | hearlier
    · rwa [List.mem_singleton.1 hlast]
    · rcases List.mem_append.1 hearlier with hinside | hfirst
      · exact h.trans (hbetween other hinside)
      · rwa [List.mem_singleton.1 hfirst]

end Walk.Returns

end

namespace Descent

open Grammar (endLocation)

variable {α β σ : Type} {c d : Bool} {tokens : List Token} {w : Walk}

/-! ## What the steps come to -/

/-- Failing leaves the cursor where it is. -/
theorem result?_throw (e : ParseError) :
    (throw e : Descent α).result? w = some (.error e, w) := rfl

/-- The second routine starts where the first one has led to, unless that one has failed. -/
theorem result?_bind (act : Descent α) (k : α → Descent β) :
    (act >>= k).result? w = (act.result? w).bind fun r =>
      match r.1 with
      | .ok a => (k a).result? r.2
      | .error e => some (.error e, r.2) := by
  change (Option.bind (act.result? w) fun r => _) = _
  rcases act.result? w with _ | ⟨_ | a, w'⟩ <;> rfl

/-- What a routine comes to is seen from outside, and is then no failure. -/
theorem result?_observing (act : Descent α) :
    (observing act : Descent (Except ParseError α)).result? w =
      (act.result? w).map fun r => (.ok r.1, r.2) := by
  change (Option.bind (Option.bind (act.result? w) fun r => _) fun r => _) = _
  rcases act.result? w with _ | ⟨_ | a, w'⟩ <;> rfl

/-- The token at the cursor is the first one that is left, which is what the grammar calls the
    current one. -/
theorem result?_peek :
    (peek tokens).result? w =
      some (.ok (current (endLocation tokens) (tokens.drop w.here.position)), w) := by
  have hfront : tokens[w.here.position]?.getD (Token.endAt (endLocation tokens)) =
      current (endLocation tokens) (tokens.drop w.here.position) := by
    rw [← List.head?_drop]
    cases tokens.drop w.here.position <;> rfl
  rw [← hfront]
  rfl

/-- Looking leaves the cursor where it is. -/
theorem result?_look (k : Token → Descent α) :
    (peek tokens >>= k).result? w =
      (k (current (endLocation tokens) (tokens.drop w.here.position))).result? w := by
  rw [result?_bind, result?_peek]
  rfl

/-- Behind the token at the cursor. -/
theorem result?_advance {t : Token} {rest : List Token}
    (h : tokens.drop w.here.position = t :: rest) :
    (advance tokens).result? w =
      some (.ok t, w.to { w.here with position := w.here.position + 1 }) := by
  have hlt : w.here.position < tokens.length := by
    have hlength := congrArg List.length h
    rw [List.length_drop, List.length_cons] at hlength
    omega
  rw [advance, result?_look, h]
  change (if w.here.position < tokens.length then _ else _ : Descent Token).result? w = _
  rw [if_pos hlt]
  rfl

/-- A level deeper and back up, whatever the inner routine comes to; without a level left the cursor
    does not move. -/
theorem result?_nested (act : Descent α) :
    (nested tokens act).result? w =
      if maxDepth ≤ w.here.depth then
        some (.error (.tooDeep
          (current (endLocation tokens) (tokens.drop w.here.position)).location), w)
      else
        (act.result? (w.to { w.here with depth := w.here.depth + 1 })).map fun r =>
          (r.1, r.2.to { r.2.here with depth := r.2.here.depth - 1 }) := by
  change (if maxDepth ≤ w.here.depth then _ else _ : Descent α).result? w = _
  by_cases hdeep : maxDepth ≤ w.here.depth
  · rw [if_pos hdeep, if_pos hdeep]
    exact result?_look fun t => throw (.tooDeep t.location)
  · rw [if_neg hdeep, if_neg hdeep]
    change (observing act >>= fun outcome => _ : Descent α).result? (w.to _) = _
    rw [result?_bind, result?_observing]
    rcases act.result? (w.to { w.here with depth := w.here.depth + 1 }) with _ | ⟨_ | a, w'⟩ <;> rfl

/-! ## Ending -/

/-- A routine that calls none of the others ends if it comes to anything. -/
theorem ends_of_result? {act : Descent α} {r : Except ParseError α × Walk}
    (h : act.result? w = some r) : Ends tokens (fun _ => act) w r := ⟨0, fun _ _ => h⟩

/-- What a routine comes to decides what is made of it. -/
theorem Ends.map {act : Routines → Descent α} {act' : Routines → Descent β} {w' : Walk}
    {r : Except ParseError α × Walk} {r' : Except ParseError β × Walk} (h : Ends tokens act w r)
    (hresult : ∀ again, (act again).result? w = some r → (act' again).result? w' = some r') :
    Ends tokens act' w' r' := by
  obtain ⟨n, hn⟩ := h
  exact ⟨n, fun m hm => hresult _ (hn m hm)⟩

/-- A call takes room for one. -/
theorem Ends.call {act body : Routines → Descent α} {r : Except ParseError α × Walk}
    (h : Ends tokens body w r)
    (hcall : ∀ n, act (routines tokens (n + 1)) = body (routines tokens n)) :
    Ends tokens act w r := by
  obtain ⟨n, hn⟩ := h
  refine ⟨n + 1, fun m hm => ?_⟩
  obtain ⟨k, rfl⟩ : ∃ k, m = k + 1 := ⟨m - 1, by omega⟩
  rw [hcall]
  exact hn k (by omega)

/-- A failure ends the whole sequence. -/
theorem ends_bind_error {act : Routines → Descent α} {k : Routines → α → Descent β}
    {e : ParseError} {w' : Walk} (h : Ends tokens act w (.error e, w')) :
    Ends tokens (fun again => act again >>= k again) w (.error e, w') :=
  h.map fun again hresult => by rw [result?_bind, hresult]; rfl

/-- The room that each part needs is enough for both in turn. -/
theorem Ends.bind {act : Routines → Descent α} {k : Routines → α → Descent β} {a : α} {w' : Walk}
    {r : Except ParseError β × Walk} (h : Ends tokens act w (.ok a, w'))
    (hk : Ends tokens (fun again => k again a) w' r) :
    Ends tokens (fun again => act again >>= k again) w r := by
  obtain ⟨n, hn⟩ := h
  obtain ⟨n', hn'⟩ := hk
  refine ⟨max n n', fun m hm => ?_⟩
  rw [result?_bind, hn m (by omega)]
  exact hn' m (by omega)

/-! ## Performing a rule of the grammar -/

/-- From this walk on a routine ends and does what a rule of the grammar says: it fails with the
    same error, or it has the same result and the cursor stands in front of the same tokens. -/
def PerformsAt (tokens : List Token) (w : Walk) (act : Routines → Descent α) (p : Parser c α) :
    Prop :=
  ∃ outcome w', Ends tokens act w (outcome, w') ∧ w.Returns tokens w' ∧
    p.run (endLocation tokens) (tokens.drop w.here.position) =
      outcome.map fun a => (a, tokens.drop w'.here.position)

/-- Taking a token moves the cursor forward on its level. -/
theorem returns_advance {t : Token} {rest : List Token} (hw : w.here.Sound tokens)
    (h : tokens.drop w.here.position = t :: rest) :
    w.Returns tokens (w.to { w.here with position := w.here.position + 1 }) := by
  have hlength := congrArg List.length h
  rw [List.length_drop, List.length_cons] at hlength
  exact .move ⟨⟨by simp only; omega, hw.bounded⟩, Nat.le_succ _, Nat.le_refl _⟩ rfl

/-- The same from every walk at this depth. -/
def Performs (tokens : List Token) (depth : Nat) (act : Routines → Descent α) (p : Parser c α) :
    Prop :=
  ∀ w : Walk, w.here.Sound tokens → w.here.depth = depth → PerformsAt tokens w act p

/-- The second routine starts where the first one has led to, with the tokens that its rule has
    left. -/
theorem performsAt_bind {act : Routines → Descent α} {k : Routines → α → Descent β}
    {p : Parser c α} {q : α → Parser d β} (hact : PerformsAt tokens w act p)
    (hk : ∀ a w' rest, p.run (endLocation tokens) (tokens.drop w.here.position) = .ok (a, rest) →
      rest = tokens.drop w'.here.position → w.Returns tokens w' →
      PerformsAt tokens w' (fun again => k again a) (q a)) :
    PerformsAt tokens w (fun again => act again >>= k again) (p.bind q) := by
  obtain ⟨outcome, w', hends, hreturns, hrun⟩ := hact
  rcases outcome with e | a
  · refine ⟨.error e, w', ends_bind_error hends, hreturns, ?_⟩
    rw [Parser.run_bind, hrun]
    rfl
  · obtain ⟨outcome', w'', hends', hreturns', hrun'⟩ := hk a w' _ hrun rfl hreturns
    refine ⟨outcome', w'', hends.bind hends', hreturns.trans hreturns', ?_⟩
    rw [Parser.run_bind, hrun]
    exact hrun'

/-- Looking does not move the cursor, so the rest is performed from the same place. -/
theorem performsAt_look {k : Routines → Token → Descent α} {q : Token → Parser c α}
    (hk : PerformsAt tokens w
      (fun again => k again (current (endLocation tokens) (tokens.drop w.here.position)))
      (q (current (endLocation tokens) (tokens.drop w.here.position)))) :
    PerformsAt tokens w (fun again => peek tokens >>= k again) (Parser.look q) := by
  obtain ⟨outcome, w', hends, hreturns, hrun⟩ := hk
  refine ⟨outcome, w', hends.map fun again hresult => ?_, hreturns, hrun⟩
  rw [result?_look]
  exact hresult

/-- Rules that do the same are performed by the same routine. -/
theorem PerformsAt.congr {act : Routines → Descent α} {p : Parser c α} {q : Parser d α}
    (h : PerformsAt tokens w act p) (hrun : ∀ last ts, q.run last ts = p.run last ts) :
    PerformsAt tokens w act q := by
  obtain ⟨outcome, w', hends, hreturns, hp⟩ := h
  exact ⟨outcome, w', hends, hreturns, (hrun _ _).trans hp⟩

/-- A call of a routine needs room for one more, and does what its body does. -/
theorem PerformsAt.call {act body : Routines → Descent α} {p : Parser c α}
    (h : PerformsAt tokens w body p)
    (hcall : ∀ n, act (routines tokens (n + 1)) = body (routines tokens n)) :
    PerformsAt tokens w act p := by
  obtain ⟨outcome, w', hends, hreturns, hp⟩ := h
  exact ⟨outcome, w', hends.call hcall, hreturns, hp⟩

section

variable {depth : Nat}

/-- Nothing is taken, and the cursor stays. -/
theorem performs_pure (a : α) : Performs tokens depth (fun _ => pure a) (Parser.pure a) :=
  fun w hw _ => ⟨.ok a, w, ends_of_result? rfl, .refl hw, rfl⟩

/-- A routine may fail where its rule does. -/
theorem performs_throw (e : ParseError) :
    Performs tokens depth (fun _ => (throw e : Descent α)) (Parser.fail e : Parser c α) :=
  fun w hw _ => ⟨.error e, w, ends_of_result? rfl, .refl hw, rfl⟩

/-- Sequences are performed part by part. -/
theorem Performs.bind {act : Routines → Descent α} {k : Routines → α → Descent β}
    {p : Parser c α} {q : α → Parser d β} (hact : Performs tokens depth act p)
    (hk : ∀ a, Performs tokens depth (fun again => k again a) (q a)) :
    Performs tokens depth (fun again => act again >>= k again) (p.bind q) :=
  fun w hw hdepth => performsAt_bind (hact w hw hdepth) fun a w' _ _ _ hreturns =>
    hk a w' hreturns.here.toSound (hreturns.level.trans hdepth)

/-- What is built from the result does not move the cursor. -/
theorem Performs.map {act : Routines → Descent α} {p : Parser c α}
    (hact : Performs tokens depth act p) (f : α → β) :
    Performs tokens depth (fun again => act again >>= fun a => pure (f a)) (p.map f) := by
  intro w hw hdepth
  refine ((hact.bind fun a => performs_pure (f a)) w hw hdepth).congr fun last ts => ?_
  rw [Parser.run_map, Parser.run_bind]
  cases p.run last ts <;> rfl

/-- The rule and the routine see the same token. -/
theorem performs_look {k : Routines → Token → Descent α} {q : Token → Parser c α}
    (hk : ∀ t, Performs tokens depth (fun again => k again t) (q t)) :
    Performs tokens depth (fun again => peek tokens >>= k again) (Parser.look q) :=
  fun w hw hdepth => performsAt_look (hk _ w hw hdepth)

/-- How much a rule is known to take makes no difference to what is performed. -/
theorem Performs.relax {act : Routines → Descent α} {p : Parser c α}
    (hact : Performs tokens depth act p) : Performs tokens depth act p.relax := hact

/-- The same branch is taken on both sides. -/
theorem Performs.ite {b : Prop} [Decidable b] {act act' : Routines → Descent α}
    {p q : Parser c α} (hp : Performs tokens depth act p) (hq : Performs tokens depth act' q) :
    Performs tokens depth (fun again => if b then act again else act' again)
      (if b then p else q) := by
  split
  · exact hp
  · exact hq

/-- A call is performed as its body is. -/
theorem Performs.call {act body : Routines → Descent α} {p : Parser c α}
    (h : Performs tokens depth body p)
    (hcall : ∀ n, act (routines tokens (n + 1)) = body (routines tokens n)) :
    Performs tokens depth act p := fun w hw hdepth => (h w hw hdepth).call hcall

/-- The end marker is never acceptable, so a token that is taken is there, and the cursor moves
    behind it. -/
theorem performs_take {accepts : Token → Bool} (hend : ∀ loc, accepts (Token.endAt loc) = false)
    (refusal : Token → ParseError) :
    Performs tokens depth (fun _ => take tokens accepts refusal)
      (Parser.take accepts refusal) := by
  intro w hw _
  unfold take
  rcases hleft : tokens.drop w.here.position with _ | ⟨t, rest⟩
  · refine ⟨.error (refusal (Token.endAt (endLocation tokens))), w, ends_of_result? ?_, .refl hw,
      by rw [hleft]; rfl⟩
    rw [result?_look, hleft]
    simp only [current, hend, Bool.false_eq_true, if_false, result?_throw]
  · by_cases haccepts : accepts t = true
    · have hrest : tokens.drop (w.here.position + 1) = rest := by
        rw [← List.drop_drop, hleft, List.drop_one, List.tail_cons]
      refine ⟨.ok t, w.to { w.here with position := w.here.position + 1 }, ends_of_result? ?_,
        returns_advance hw hleft, ?_⟩
      · rw [result?_look, hleft]
        simp only [current, haccepts, if_true, result?_advance hleft]
      · rw [hleft]
        simp only [Parser.take, haccepts, if_true, Walk.to, hrest]
        rfl
    · refine ⟨.error (refusal t), w, ends_of_result? ?_, .refl hw, ?_⟩
      · rw [result?_look, hleft]
        simp only [current, haccepts, if_false, Bool.false_eq_true, result?_throw]
      · rw [hleft]
        simp only [Parser.take, if_neg haccepts]
        rfl

/-- The end marker has no spelling that could be asked for. -/
theorem performs_token (text : String) :
    Performs tokens depth (fun _ => token tokens text) (Parser.token text) :=
  performs_take (fun _ => rfl) _

/-- Taking a token before it is refused: the rule only looks at it, and fails just the same. -/
theorem performs_refuse {text : String} (refusal : Token → ParseError)
    {act : Routines → Descent α} {p : Parser false α} (hact : Performs tokens depth act p) :
    Performs tokens depth
      (fun again => peek tokens >>= fun t =>
        if t.is text then token tokens text >>= fun op => throw (refusal op) else act again)
      (Parser.look fun t => if t.is text then .fail (refusal t) else p) := by
  have hrefused : Performs tokens depth
      (fun _ => token tokens text >>= fun op => (throw (refusal op) : Descent α))
      ((Parser.token text).bind fun op => (.fail (refusal op) : Parser false α)) :=
    (performs_token text).bind fun op => performs_throw _
  have htaken := performs_look fun t => Performs.ite (b := t.is text) hrefused.relax hact
  refine fun w hw hdepth => (htaken w hw hdepth).congr fun last ts => ?_
  -- the token that was looked at is the one that is taken
  rw [Parser.run_look, Parser.run_look]
  split
  · rename_i hcurrent
    cases ts with
    | nil => exact absurd hcurrent (by simp [current, Token.is, Token.endAt])
    | cons t rest =>
      have htoken : (Parser.token text).run last (t :: rest) = .ok (t, rest) := if_pos hcurrent
      rw [Parser.run_relax, Parser.run_bind, htoken]
      rfl
  · rfl

/-- A rule that is bound to take a token moves the cursor when it succeeds. -/
theorem position_lt_of_run {p : Parser true α} {a : α} {w w' : Walk}
    (hrun : p.run (endLocation tokens) (tokens.drop w.here.position) =
      .ok (a, tokens.drop w'.here.position)) : w.here.position < w'.here.position := by
  have hshrinks := p.shrinks hrun
  rw [List.length_drop, List.length_drop, Bool.toNat_true] at hshrinks
  omega

/-- A loop ends, because each round takes a token. -/
theorem performs_loop {test : Token → Bool} {step : σ → Parser true σ}
    (again body : σ → Routines → Descent σ)
    (hagain : ∀ s n, again s (routines tokens (n + 1)) = do
      let t ← peek tokens
      if test t then
        let s' ← body s (routines tokens n)
        again s' (routines tokens n)
      else pure s)
    (hbody : ∀ s, Performs tokens depth (body s) (step s)) (s : σ) :
    Performs tokens depth (again s) (Parser.loop test step s) := by
  intro w hw hdepth
  -- by induction on the tokens left: a round takes one of them at least
  induction hleft : tokens.length - w.here.position using Nat.strongRecOn generalizing s w with
  | _ left ih =>
    have hround : PerformsAt tokens w
        (fun r => peek tokens >>= fun t =>
          if test t then body s r >>= fun s' => again s' r else pure s)
        (Parser.look fun t => if test t then ((step s).bind (Parser.loop test step)).relax
          else Parser.pure s) := by
      refine performsAt_look ?_
      split
      · refine performsAt_bind (hbody s w hw hdepth) fun s' w' rest hrun hrest hreturns => ?_
        have hforward := position_lt_of_run (hrest ▸ hrun)
        have hinside := hreturns.here.inside
        exact ih (tokens.length - w'.here.position) (by omega) s' w' hreturns.here.toSound
          (hreturns.level.trans hdepth) rfl
      · exact performs_pure s w hw hdepth
    refine (hround.congr fun last ts => ?_).call (hagain s)
    rw [Parser.run_loop, Parser.run_look]
    split
    · rw [Parser.run_relax, Parser.run_bind]
    · rfl

/-! ### Levels -/

/-- Where no level is left. -/
theorem performs_tooDeep (act : Routines → Descent Expr) :
    Performs tokens maxDepth (fun again => nested tokens (act again)) Grammar.tooDeep := by
  intro w hw hdepth
  refine ⟨.error (.tooDeep (current (endLocation tokens) (tokens.drop w.here.position)).location),
    w, ⟨0, fun m _ => ?_⟩, .refl hw, rfl⟩
  rw [result?_nested, if_pos (Nat.le_of_eq hdepth.symm)]

/-- The levels above see a routine as if it had run on their own. -/
theorem Performs.nested {act : Routines → Descent α} {p : Parser c α}
    (hact : Performs tokens (depth + 1) act p) (hlevel : depth < maxDepth) :
    Performs tokens depth (fun again => nested tokens (act again)) p := by
  intro w hw hdepth
  have hdown : w.here.Beyond tokens { w.here with depth := w.here.depth + 1 } :=
    ⟨⟨hw.inside, by simp only; omega⟩, Nat.le_refl _, Nat.le_succ _⟩
  obtain ⟨outcome, w', hends, hreturns, hrun⟩ :=
    hact (w.to { w.here with depth := w.here.depth + 1 }) hdown.toSound (by simp [Walk.to, hdepth])
  refine ⟨outcome, _, hends.map fun again hresult => ?_, hreturns.around hdown rfl, hrun⟩
  rw [result?_nested, if_neg (by omega), hresult]
  rfl

end

/-! ## The rules of the grammar -/

/-- At this depth the routines that go deeper perform what the next level has to offer. -/
structure Level (tokens : List Token) (depth : Nat) (inner : Grammar.Nested) : Prop where
  expression : Performs tokens depth (expression tokens) inner.expression
  operand : Performs tokens depth (fun again => nested tokens again.unary) inner.operand

section

variable {depth : Nat} {inner : Grammar.Nested}

/-- An expression that is called from within is performed on the level of the caller. -/
theorem Level.again (h : Level tokens depth inner) :
    Performs tokens depth (·.expression) inner.expression := h.expression.call fun _ => rfl

/-- The end marker is no operator. -/
theorem isAny_endAt (texts : List String) (loc : Location) :
    (Token.endAt loc).isAny texts = false := by
  simp [Token.isAny, Token.is, Token.endAt]

/-! ### Literals and names -/

/-- A literal out of range is refused once it has been taken. -/
theorem performs_integer : Performs tokens depth (fun _ => integer tokens) Grammar.integer := by
  refine (performs_take (fun _ => rfl) _).bind fun t => ?_
  cases Decimal.readInt64? t.text with
  | some n => exact performs_pure _
  | none => exact performs_throw _

/-- A Boolean literal is taken by its kind. -/
theorem performs_boolean : Performs tokens depth (fun _ => boolean tokens) Grammar.boolean :=
  (performs_take (fun _ => rfl) _).map _

/-- A keyword is refused where it stands. -/
theorem performs_name : Performs tokens depth (fun _ => name tokens) Grammar.name :=
  performs_take (fun _ => rfl) _

/-! ### Calls, parentheses and conditionals -/

/-- Each round of the loop takes a comma and an argument. -/
theorem performs_furtherArguments (h : Level tokens depth inner) (args : List Expr) :
    Performs tokens depth (·.furtherArguments args)
      (Parser.loop (·.is ",")
        (fun args => (Parser.token ",").bind fun _ =>
          inner.expression.map fun e => args ++ [e]) args) := by
  refine performs_loop (fun args again => again.furtherArguments args)
    (fun args again => do
      let _ ← token tokens ","
      let e ← again.expression
      return args ++ [e]) (fun args n => ?_) (fun args => ?_) args
  · simp only [routines, furtherArguments, bind_assoc, pure_bind]
  · exact (performs_token ",").bind fun _ => h.again.map _

/-- A closing parenthesis in front means that there are none. -/
theorem performs_arguments (h : Level tokens depth inner) :
    Performs tokens depth (arguments tokens) (Grammar.arguments inner) :=
  performs_look fun _ => (performs_pure _).ite
    (Performs.relax (h.again.bind fun first => performs_furtherArguments h [first]))

/-- Whether it is a call is told by the token behind the name. -/
theorem performs_nameOrCall (h : Level tokens depth inner) :
    Performs tokens depth (nameOrCall tokens) (Grammar.nameOrCall inner) := by
  refine performs_name.bind fun t => performs_look fun next => Performs.ite ?_ (performs_pure _)
  refine Performs.relax
    ((performs_token "(").bind fun _ => (performs_arguments h).bind fun args => ?_)
  exact (performs_take (fun _ => rfl) _).map _

/-- The expression in parentheses is read on the next level. -/
theorem performs_parenthesized (h : Level tokens depth inner) :
    Performs tokens depth (parenthesized tokens) (Grammar.parenthesized inner) :=
  (performs_token "(").bind fun _ => h.again.bind fun _ => (performs_token ")").map _

/-- The else-branch is looked for behind the first one. -/
theorem performs_conditional (h : Level tokens depth inner) :
    Performs tokens depth (conditional tokens) (Grammar.conditional inner) := by
  refine (performs_token "if").bind fun opening => h.again.bind fun condition => ?_
  refine (performs_token "then").bind fun _ => h.again.bind fun thenBranch => ?_
  refine performs_look fun t => Performs.ite (Performs.relax ?_) (performs_pure _)
  exact (performs_token "else").bind fun _ => h.again.map _

/-! ### Blocks -/

/-- A declaration reads its words, its name and its value in turn. -/
theorem performs_declaration (h : Level tokens depth inner) :
    Performs tokens depth (declaration tokens) (Grammar.declaration inner) := by
  refine (performs_token "var").bind fun opening => performs_name.bind fun t => ?_
  exact (performs_token "=").bind fun _ => h.again.map _

/-- The first token tells a declaration from an expression. -/
theorem performs_statement (h : Level tokens depth inner) :
    Performs tokens depth (statement tokens) (Grammar.statement inner) :=
  performs_look fun _ => (performs_declaration h).ite h.again

/-- Only a semicolon is taken; everything else is looked at. -/
theorem performs_separator (earlier : List Expr) (last : Expr) :
    Performs tokens depth (fun _ => separator tokens earlier last)
      (Grammar.separator earlier last) := by
  refine performs_look fun t => Performs.ite (Performs.relax ?_) ?_
  · exact (performs_token ";").bind fun semicolon => performs_look fun next => performs_pure _
  · refine (performs_pure _).ite ((performs_throw _).ite ?_)
    exact (performs_pure _).ite (performs_throw _)

/-- Each round of the loop takes a statement and what stands behind it. -/
theorem performs_statements (h : Level tokens depth inner) (earlier : List Expr) :
    Performs tokens depth (·.statements earlier)
      (Parser.loop (fun t => !t.is "\x7d")
        (fun earlier => (Grammar.statement inner).bind fun e => Grammar.separator earlier e)
        earlier) := by
  refine performs_loop (fun earlier again => again.statements earlier)
    (fun earlier again => do
      let e ← statement tokens again
      separator tokens earlier e) (fun earlier n => ?_) (fun earlier => ?_) earlier
  · simp only [routines, statements, bind_assoc]
  · exact (performs_statement h).bind fun e => performs_separator earlier e

/-- The statements stand between two braces. -/
theorem performs_block (h : Level tokens depth inner) :
    Performs tokens depth (block tokens) (Grammar.block inner) := by
  refine (performs_token "\x7b").bind fun opening => (performs_statements h []).bind fun all => ?_
  exact (performs_token "\x7d").map _

/-! ### Operators -/

/-- The kind of the first token chooses the routine, as it chooses the rule. -/
theorem performs_atom (h : Level tokens depth inner) :
    Performs tokens depth (atom tokens) (Grammar.atom inner) := by
  refine performs_look fun t => ?_
  cases t.kind with
  | integer => exact performs_integer
  | boolean => exact performs_boolean
  | identifier =>
    exact (performs_conditional h).ite ((performs_throw _).ite (performs_nameOrCall h))
  | punctuation =>
    exact (performs_parenthesized h).ite ((performs_block h).ite (performs_throw _))
  | operator => exact performs_throw _
  | endOfInput => exact performs_throw _

/-- An operator in front is taken before its operand is read one level deeper. -/
theorem performs_unary (h : Level tokens depth inner) :
    Performs tokens depth (unary tokens) (Grammar.unary inner) := by
  refine performs_look fun t => Performs.ite ?_ (performs_atom h)
  exact (performs_take (isAny_endAt _) _).bind fun op => h.operand.map _

/-- Each round of the loop takes an operator and reads its right side. -/
theorem performs_joined {operand : Parser true Expr} {operators : List String} {level : Nat}
    (h : Performs tokens depth (·.binary (level + 1)) operand) (left : Expr) :
    Performs tokens depth (·.joined operators level left)
      (Parser.loop (·.isAny operators)
        (fun left => (Parser.take (·.isAny operators) (·.expected .operand)).bind fun op =>
          operand.map (.binary op.location op.text left)) left) := by
  refine performs_loop (fun left again => again.joined operators level left)
    (fun left again => do
      let op ← take tokens (·.isAny operators) (·.expected .operand)
      let right ← again.binary (level + 1)
      return .binary op.location op.text left right) (fun left n => ?_) (fun left => ?_) left
  · simp only [routines, joined, bind_assoc, pure_bind]
  · exact (performs_take (isAny_endAt _) _).bind fun op => h.map _

/-- By induction on the levels that are tighter. -/
theorem performs_binary (h : Level tokens depth inner) (level : Nat) :
    Performs tokens depth (binary · level)
      ((Grammar.binaryLevels.drop level).foldr Grammar.chain (Grammar.unary inner)) := by
  induction hleft : Grammar.binaryLevels.length - level generalizing level with
  | zero =>
    have hlevel : Grammar.binaryLevels.length ≤ level := by omega
    simp only [binary, List.getElem?_eq_none hlevel, List.drop_of_length_le hlevel]
    exact (performs_unary h).call fun _ => rfl
  | succ left ih =>
    have hlevel : level < Grammar.binaryLevels.length := by omega
    have htighter : Performs tokens depth (·.binary (level + 1)) _ :=
      (ih (level + 1) (by omega)).call fun _ => rfl
    simp only [binary, List.getElem?_eq_getElem hlevel, List.drop_eq_getElem_cons hlevel]
    exact htighter.bind fun left => performs_joined htighter left

/-- The sign is taken before the target is refused, as far as the cursor is concerned; the rule only
    looks at it then (`performs_refuse`). -/
theorem performs_assignment (h : Level tokens depth inner) :
    Performs tokens depth (assignment tokens) (Grammar.assignment inner) := by
  have hbinary : Performs tokens depth (·.binary 0) (Grammar.binary inner) :=
    (performs_binary h 0).call fun _ => rfl
  refine hbinary.bind fun target => ?_
  cases target with
  | name loc n =>
    refine performs_look fun t => Performs.ite (Performs.relax ?_) (performs_pure _)
    exact (performs_token "=").bind fun op => h.again.map _
  | _ => exact performs_refuse (.invalidAssignmentTarget ·.location) (performs_pure _)

end

/-! ## All levels -/

/-- With `n` levels left the cursor does what the grammar with `n` levels says. -/
theorem level_nested {n depth : Nat} (h : depth + n = maxDepth) :
    Level tokens depth (Grammar.nested n) := by
  induction n generalizing depth with
  | zero =>
    obtain rfl : depth = maxDepth := h
    exact ⟨performs_tooDeep _, performs_tooDeep _⟩
  | succ n ih =>
    have hlevel : depth < maxDepth := by omega
    have hinner : Level tokens (depth + 1) (Grammar.nested n) := ih (by omega)
    have hunary : Performs tokens (depth + 1) (·.unary) (Grammar.nested (n + 1)).operand :=
      (performs_unary hinner).call fun _ => rfl
    exact ⟨(performs_assignment hinner).nested hlevel, hunary.nested hlevel⟩

/-- Every routine performs its rule. -/
theorem performs_rule (r : Routine) {depth : Nat} (h : depth ≤ maxDepth) :
    Performs tokens depth (r.act tokens ·) (r.rule (Grammar.nested (maxDepth - depth))) := by
  have hlevel : Level tokens depth (Grammar.nested (maxDepth - depth)) := level_nested (by omega)
  cases r with
  | expression => exact hlevel.expression
  | binary level => exact performs_binary hlevel level
  | unary => exact performs_unary hlevel
  | atom => exact performs_atom hlevel
  | block => exact performs_block hlevel
  | statement => exact performs_statement hlevel

/-- A walk starts in front of the tokens, on no level. -/
theorem sound_start (tokens : List Token) : Walk.start.here.Sound tokens :=
  ⟨Nat.zero_le _, Nat.zero_le _⟩

/-- The cursor reads a program as the grammar does. -/
theorem program_parses (tokens : List Token) :
    ∃ w, Ends tokens (program tokens) .start (Grammar.parse tokens, w) ∧
      Walk.start.Returns tokens w := by
  cases tokens with
  | nil => exact ⟨.start, ends_of_result? rfl, .refl (sound_start [])⟩
  | cons first rest =>
    obtain ⟨outcome, w, hends, hreturns, hrun⟩ := performs_rule .expression (Nat.zero_le _)
      .start (sound_start (first :: rest)) rfl
    change (Grammar.nested maxDepth).expression.run (endLocation (first :: rest))
      (first :: rest) = _ at hrun
    have hlook (again : Routines) : (program (first :: rest) again).result? .start =
        (if first.is "var" = true then throw (.misplacedDeclaration first.location)
          else _ : Descent (Option Expr)).result? .start := result?_look _
    rw [Grammar.parse]
    by_cases hvar : first.is "var" = true
    · refine ⟨.start, ⟨0, fun m _ => ?_⟩, .refl (sound_start _)⟩
      rw [hlook, if_pos hvar, if_pos hvar]
      rfl
    · refine ⟨w, hends.map fun again hresult => ?_, hreturns⟩
      change (expression (first :: rest) again).result? .start = _ at hresult
      rw [hlook, if_neg hvar, if_neg hvar, hrun, result?_bind, hresult]
      rcases outcome with e | e
      · rfl
      · change (peek _ >>= fun next => _ : Descent (Option Expr)).result? w = _
        rw [result?_look]
        simp only [Except.map]
        split <;> rfl

/-- A routine ends wherever the cursor can stand.  It has then come to what its rule says, over
    places where a cursor can stand, and is back on its level; when it has succeeded it has taken
    a token.  A whole program ends as well, and all its places are such places. -/
theorem routine_ends (tokens : List Token) :
    (∃ w, Ends tokens (program tokens) .start (Grammar.parse tokens, w) ∧
      ∀ place ∈ w.trail, place.Sound tokens) ∧
    ∀ (r : Routine) (w : Walk), w.here.Sound tokens →
      ∃ outcome w', Ends tokens (r.act tokens ·) w (outcome, w') ∧
        w.Returns tokens w' ∧ (∀ e, outcome = .ok e → w.here.position < w'.here.position) ∧
        (r.rule (Grammar.nested (maxDepth - w.here.depth))).run (endLocation tokens)
            (tokens.drop w.here.position) =
          outcome.map fun e => (e, tokens.drop w'.here.position) := by
  refine ⟨?_, fun r w hw => ?_⟩
  · obtain ⟨w, hends, hreturns⟩ := program_parses tokens
    obtain ⟨between, htrail, hbetween⟩ := hreturns.trail
    refine ⟨w, hends, fun place hplace => (hbetween place ?_).toSound⟩
    rwa [htrail, Walk.start, List.append_nil] at hplace
  · obtain ⟨outcome, w', hends, hreturns, hrun⟩ := performs_rule r hw.bounded w hw rfl
    refine ⟨outcome, w', hends, hreturns, fun e he => ?_, hrun⟩
    subst he
    exact position_lt_of_run hrun

/-- One level is enough for one sign, and an end marker among the tokens stops a statement. -/
theorem routine_ends_interrupted :
    let loc := Location.start
    let tokens : List Token := [⟨.operator, "-", loc⟩, ⟨.identifier, "x", loc⟩,
      ⟨.endOfInput, "x", loc⟩, ⟨.identifier, "x", loc⟩]
    Cursor.Sound tokens ⟨0, 63⟩ ∧ Cursor.Sound tokens ⟨2, 63⟩ ∧
    (∃ w, Ends tokens (unary tokens) ⟨⟨0, 63⟩, []⟩ (.ok (.unary loc "-" (.name loc "x")), w) ∧
      tokens.drop w.here.position = tokens.drop 2 ∧ w.here.depth = 63 ∧
      ∀ place ∈ w.trail, place.depth ≤ 64) ∧
    ∃ w, Ends tokens (statement tokens) ⟨⟨2, 63⟩, []⟩ (.error (.expected .operand none loc), w) ∧
      w.here.depth = 63 := by
  intro loc tokens
  have hfirst : Cursor.Sound tokens ⟨0, 63⟩ := ⟨by decide, by decide⟩
  have hsecond : Cursor.Sound tokens ⟨2, 63⟩ := ⟨by decide, by decide⟩
  have hunary : (Grammar.unary (Grammar.nested 1)).run (endLocation tokens) (tokens.drop 0) =
      .ok (.unary loc "-" (.name loc "x"), tokens.drop 2) := by cbv
  have hstatement : (Grammar.statement (Grammar.nested 1)).run (endLocation tokens)
      (tokens.drop 2) = .error (.expected .operand none loc) := by cbv
  obtain ⟨outcome, w, hends, hreturns, -, hrun⟩ :=
    (routine_ends tokens).2 .unary ⟨⟨0, 63⟩, []⟩ hfirst
  obtain ⟨outcome', w', hends', hreturns', -, hrun'⟩ :=
    (routine_ends tokens).2 .statement ⟨⟨2, 63⟩, []⟩ hsecond
  refine ⟨hfirst, hsecond, ?_, ?_⟩
  · rcases outcome with e | e
    · exact absurd (hunary.symm.trans hrun) (by simp [Except.map])
    · obtain ⟨rfl, hrest⟩ := Prod.mk.inj (Except.ok.inj (hunary.symm.trans hrun))
      refine ⟨w, hends, hrest.symm, hreturns.level, fun place hplace => ?_⟩
      obtain ⟨between, htrail, hbetween⟩ := hreturns.trail
      rw [htrail, List.append_nil] at hplace
      exact (hbetween place hplace).bounded
  · rcases outcome' with e | e
    · obtain rfl := Except.error.inj (hstatement.symm.trans hrun')
      exact ⟨w', hends', hreturns'.level⟩
    · exact absurd (hstatement.symm.trans hrun') (by simp [Except.map])

end Descent

end ExprLang
