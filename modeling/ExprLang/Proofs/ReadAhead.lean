/-
  READING AHEAD: what the result of a parser depends on.

  A parser that succeeds has taken some tokens and has looked at the one behind them, and at no
  other.  So it succeeds again when other tokens follow, as long as they begin with the same one.
  Behind an expression the next token may even be another one, if both are tokens in front of
  which an expression ends.

  How many levels are left does not matter either, until they run out.  A parser with more of them
  repeats what one with fewer has done, and one with fewer does the same or complains about
  nesting.

  `Repeats ends deep p q` says all of this of two parsers `p` and `q`: whenever `p` succeeds, `q`
  succeeds in the same way in front of the same token, or in front of any of those that `ends`
  lists if `p` has stopped at one of them.  If `deep` holds it may complain about nesting instead.
  There is one rule for each combinator and one for each rule of the grammar.
-/
import ExprLang.Proofs.Printing

namespace ExprLang

namespace Parser

variable {α β σ : Type} {c d : Bool} {ends : Token → Prop} {deep : Prop}

/-! ## Outcomes and tokens -/

/-- A run ends in a result, or it may complain about nesting. -/
def Agrees (deep : Prop) (outcome : Except ParseError α) (result : α) : Prop :=
  outcome = .ok result ∨ deep ∧ ∃ loc, outcome = .error (.tooDeep loc)

/-- Two tokens are the same, or it does not matter which of the two it is. -/
def Similar (ends : Token → Prop) (t t' : Token) : Prop := t = t' ∨ ends t ∧ ends t'

/-- It always matters. -/
def never (_ : Token) : Prop := False

/-- Only where nothing has been taken the token in front is one that follows. -/
theorem similar_append {last last' : Location} {used rest rest' : List Token}
    (h : used = [] → Similar ends (current last rest) (current last' rest')) :
    Similar ends (current last (used ++ rest)) (current last' (used ++ rest')) := by
  cases used with
  | nil => exact h rfl
  | cons t used => exact .inl rfl

/-- What the second parser does wherever the first one succeeds. -/
def Repeats (ends : Token → Prop) (deep : Prop) (p q : Parser c α) : Prop :=
  ∀ last ts a rest, p.run last ts = .ok (a, rest) →
    ∃ used, ts = used ++ rest ∧ ∀ last' rest',
      Similar ends (current last rest) (current last' rest') →
      Agrees deep (q.run last' (used ++ rest')) (a, rest')

/-- Fewer tokens may be exchanged behind. -/
theorem Repeats.mono {p q : Parser c α} {ends' : Token → Prop} (h : Repeats ends deep p q)
    (hends : ∀ t, ends' t → ends t) : Repeats ends' deep p q := by
  intro last ts a rest hrun
  obtain ⟨used, hused, hagain⟩ := h _ _ _ _ hrun
  refine ⟨used, hused, fun last' rest' hnext => hagain last' rest' ?_⟩
  rcases hnext with hsame | ⟨ht, ht'⟩
  · exact .inl hsame
  · exact .inr ⟨hends _ ht, hends _ ht'⟩

/-- In front of the same token everything is repeated that is repeated at all. -/
theorem Repeats.exactly {p q : Parser c α} (h : Repeats ends deep p q) :
    Repeats never deep p q := h.mono fun _ => False.elim

/-- A parser that is bound to take a token has taken some. -/
theorem used_ne_nil {p : Parser true α} {last : Location} {used rest : List Token} {a : α}
    (h : p.run last (used ++ rest) = .ok (a, rest)) : used ≠ [] := by
  rintro rfl
  have hshrinks : rest.length + 1 ≤ rest.length := p.shrinks h
  omega

/-! ## One parser -/

/-- Taking nothing can be repeated in front of anything. -/
theorem repeats_pure (a : α) : Repeats ends deep (pure a) (pure a) := by
  intro last ts b rest hrun
  simp only [pure, Except.ok.injEq, Prod.mk.injEq] at hrun
  obtain ⟨rfl, rfl⟩ := hrun
  exact ⟨[], rfl, fun _ _ _ => .inl rfl⟩

/-- A parser that fails has nothing to be repeated. -/
theorem repeats_fail (e : ParseError) (q : Parser c α) : Repeats ends deep (fail e) q := by
  intro last ts a rest hrun
  contradiction

/-- A token is taken without looking further. -/
theorem repeats_take (accepts : Token → Bool) (refusal : Token → ParseError) :
    Repeats ends deep (take accepts refusal) (take accepts refusal) := by
  intro last ts t rest hrun
  cases ts with
  | nil => contradiction
  | cons first others =>
    by_cases haccepts : accepts first = true
    · simp only [take, if_pos haccepts, Except.ok.injEq, Prod.mk.injEq] at hrun
      obtain ⟨rfl, rfl⟩ := hrun
      refine ⟨[first], rfl, fun last' rest' _ => .inl ?_⟩
      simp only [take, List.singleton_append, if_pos haccepts]
    · simp only [take, if_neg haccepts] at hrun
      contradiction

/-- So is a token with a certain spelling. -/
theorem repeats_token (text : String) : Repeats ends deep (token text) (token text) :=
  repeats_take _ _

/-- What is built from the result is built again. -/
theorem Repeats.map {p q : Parser c α} (h : Repeats ends deep p q) (f : α → β) :
    Repeats ends deep (p.map f) (q.map f) := by
  intro last ts b rest hrun
  rw [run_map] at hrun
  rcases hfirst : p.run last ts with e | ⟨a, left⟩ <;> rw [hfirst] at hrun
  · contradiction
  · obtain ⟨used, hused, hagain⟩ := h _ _ _ _ hfirst
    simp only [Except.map, Except.ok.injEq, Prod.mk.injEq] at hrun
    obtain ⟨rfl, rfl⟩ := hrun
    refine ⟨used, hused, fun last' rest' hnext => ?_⟩
    rw [run_map]
    rcases hagain last' rest' hnext with hok | ⟨hdeep, loc, herror⟩
    · exact .inl (by rw [hok]; rfl)
    · exact .inr ⟨hdeep, loc, by rw [herror]; rfl⟩

/-- How much is known to be taken plays no part. -/
theorem Repeats.relax {p q : Parser c α} (h : Repeats ends deep p q) :
    Repeats ends deep p.relax q.relax := h

/-- The same branch is repeated. -/
theorem Repeats.ite {b : Prop} [Decidable b] {p p' q q' : Parser c α}
    (hp : Repeats ends deep p p') (hq : Repeats ends deep q q') :
    Repeats ends deep (if b then p else q) (if b then p' else q') := by
  split
  · exact hp
  · exact hq

/-! ## One after the other -/

/-- The first parser has the token in front of it that the second one starts with, or, if that one
    takes nothing, the one that follows both. -/
theorem repeats_bind_of {p p' : Parser c α} {k k' : α → Parser d β} {ends' : Token → Prop}
    (hp : Repeats ends' deep p p') (hk : ∀ a, Repeats ends deep (k a) (k' a))
    (hends : d = false → ∀ t, ends t → ends' t) :
    Repeats ends deep (p.bind k) (p'.bind k') := by
  intro last ts b rest hrun
  rw [run_bind] at hrun
  rcases hfirst : p.run last ts with e | ⟨a, middle⟩ <;> rw [hfirst] at hrun
  · contradiction
  · obtain ⟨used, rfl, hagain⟩ := hp _ _ _ _ hfirst
    have hsecond : (k a).run last middle = .ok (b, rest) := hrun
    obtain ⟨used', rfl, hagain'⟩ := hk a _ _ _ _ hsecond
    refine ⟨used ++ used', (List.append_assoc ..).symm, fun last' rest' hnext => ?_⟩
    have hmiddle :
        Similar ends' (current last (used' ++ rest)) (current last' (used' ++ rest')) := by
      refine similar_append fun hnil => ?_
      subst hnil
      have htakes : d = false := by
        cases d
        · rfl
        · exact absurd rfl (used_ne_nil hsecond)
      rcases hnext with hsame | ⟨ht, ht'⟩
      · exact .inl hsame
      · exact .inr ⟨hends htakes _ ht, hends htakes _ ht'⟩
    rw [run_bind, List.append_assoc]
    rcases hagain last' (used' ++ rest') hmiddle with hok | ⟨hdeep, loc, herror⟩
    · rw [hok]
      exact hagain' last' rest' hnext
    · exact .inr ⟨hdeep, loc, by rw [herror]; rfl⟩

/-- The first part stops in front of what the second one takes, so the tokens behind it are the same
    up to where that one stops. -/
theorem Repeats.bind {p p' : Parser c α} {k k' : α → Parser d β} (hp : Repeats ends deep p p')
    (hk : ∀ a, Repeats ends deep (k a) (k' a)) : Repeats ends deep (p.bind k) (p'.bind k') :=
  repeats_bind_of hp hk fun _ _ ht => ht

/-- In front of a parser that is bound to take a token it is all the same what follows that. -/
theorem Repeats.before {p p' : Parser c α} {k k' : α → Parser true β}
    (hp : Repeats never deep p p') (hk : ∀ a, Repeats ends deep (k a) (k' a)) :
    Repeats ends deep (p.bind k) (p'.bind k') :=
  repeats_bind_of hp hk nofun

/-- A look may end what comes before only where it decides the same for all such tokens. -/
theorem repeats_look {k k' : Token → Parser c α} (hk : ∀ t, Repeats ends deep (k t) (k' t))
    (hends : ∀ t t', ends t → ends t' → k' t = k' t') :
    Repeats ends deep (look k) (look k') := by
  intro last ts a rest hrun
  rw [run_look] at hrun
  obtain ⟨used, rfl, hagain⟩ := hk _ _ _ _ _ hrun
  refine ⟨used, rfl, fun last' rest' hnext => ?_⟩
  have hsame : k' (current last' (used ++ rest')) = k' (current last (used ++ rest)) := by
    have hsimilar : Similar ends (current last (used ++ rest)) (current last' (used ++ rest')) :=
      similar_append fun _ => hnext
    rcases hsimilar with heq | ⟨ht, ht'⟩
    · rw [heq]
    · exact (hends _ _ ht ht').symm
  rw [run_look, hsame]
  exact hagain last' rest' hnext

/-- What is bound to take a token looks at that one. -/
theorem repeats_look_taking {k k' : Token → Parser true α}
    (hk : ∀ t, Repeats ends deep (k t) (k' t)) : Repeats ends deep (look k) (look k') := by
  intro last ts a rest hrun
  rw [run_look] at hrun
  obtain ⟨used, rfl, hagain⟩ := hk _ _ _ _ _ hrun
  cases used with
  | nil => exact absurd rfl (used_ne_nil hrun)
  | cons t used => exact ⟨t :: used, rfl, fun last' rest' hnext => hagain last' rest' hnext⟩

/-! ## Again and again -/

/-- A loop goes as many rounds as before, if none of the tokens at which it may stop would make it
    go on. -/
theorem repeats_loop {test : Token → Bool} {step step' : σ → Parser true σ}
    (hstep : ∀ s, Repeats ends deep (step s) (step' s)) (htest : ∀ t, ends t → test t = false)
    (s : σ) : Repeats ends deep (loop test step s) (loop test step' s) := by
  intro last ts s' rest hrun
  change loopRun test step last s ts = .ok (s', rest) at hrun
  fun_induction loopRun test step last s ts with
  | case1 s ts hgoes next middle hround ih =>
    obtain ⟨used, rfl, hagain⟩ := hstep s _ _ _ _ hround
    obtain ⟨used', rfl, hagain'⟩ := ih hrun
    refine ⟨used ++ used', (List.append_assoc ..).symm, fun last' rest' hnext => ?_⟩
    have hmiddle : Similar ends (current last (used' ++ rest)) (current last' (used' ++ rest')) :=
      similar_append fun _ => hnext
    -- a round takes a token, so the test looks at the same one
    have hfront :
        current last' (used ++ used' ++ rest') = current last (used ++ (used' ++ rest)) := by
      cases used with
      | nil => exact absurd rfl (used_ne_nil hround)
      | cons t used => rfl
    rw [run_loop, hfront, if_pos hgoes, List.append_assoc]
    rcases hagain last' (used' ++ rest') hmiddle with hok | ⟨hdeep, loc, herror⟩
    · rw [hok]
      exact hagain' last' rest' hnext
    · exact .inr ⟨hdeep, loc, by rw [herror]; rfl⟩
  | case2 => contradiction
  | case3 s ts hstops =>
    simp only [Except.ok.injEq, Prod.mk.injEq] at hrun
    obtain ⟨rfl, rfl⟩ := hrun
    refine ⟨[], rfl, fun last' rest' hnext => .inl ?_⟩
    have hstops' : ¬test (current last' rest') = true := by
      rcases hnext with heq | ⟨-, ht'⟩
      · rwa [← heq]
      · simp [htest _ ht']
    rw [run_loop, List.nil_append, if_neg hstops']

end Parser

namespace Grammar

open ExprLang.Parser

variable {deep : Prop} {inner inner' : Nested}

/-! ## The rules of the grammar -/

/-- Whether an expression ends in front of a token, also one that an `else` could continue. -/
structure Ends (t : Token) : Prop extends Stops t where
  otherwise : t.is "else" = false

/-- An expression may end at the end of the program. -/
theorem ends_endAt (last : Location) : Ends (Token.endAt last) := ⟨stops_endAt last, rfl⟩

/-- The parsers of one level repeat what those of another one do. -/
structure Nested.Repeats (deep : Prop) (inner inner' : Nested) : Prop where
  expression : Parser.Repeats Ends deep inner.expression inner'.expression
  operand : Parser.Repeats Ends deep inner.operand inner'.operand

/-! ### Literals and names -/

/-- Literals and names are single tokens, in front of anything. -/
theorem repeats_integer {ends : Token → Prop} : Repeats ends deep integer integer := by
  refine (repeats_take _ _).bind fun t => ?_
  cases Decimal.readInt64? t.text with
  | some n => exact repeats_pure _
  | none => exact repeats_fail _ _

theorem repeats_boolean {ends : Token → Prop} : Repeats ends deep boolean boolean :=
  (repeats_take _ _).map _

theorem repeats_name {ends : Token → Prop} : Repeats ends deep name name := repeats_take _ _

/-! ### Calls, parentheses and conditionals -/

/-- Arguments are read up to the closing parenthesis, so what stands in front of it may not be
    exchanged. -/
theorem repeats_arguments (h : inner.Repeats deep inner') :
    Repeats never deep (arguments inner) (arguments inner') := by
  refine repeats_look (fun t => ?_) fun _ _ ht => ht.elim
  refine Repeats.ite (repeats_pure _) (Repeats.relax (h.expression.exactly.bind fun first => ?_))
  refine repeats_loop (fun args => ?_) (fun _ ht => ht.elim) _
  exact (repeats_token ",").bind fun _ => h.expression.exactly.map _

/-- A name ends in front of anything but an opening parenthesis, which is no end of an
    expression. -/
theorem repeats_nameOrCall (h : inner.Repeats deep inner') :
    Repeats Ends deep (nameOrCall inner) (nameOrCall inner') := by
  refine repeats_name.bind fun t => repeats_look (fun next => ?_) fun next next' hends hends' => ?_
  · refine Repeats.ite (Repeats.relax ?_) (repeats_pure _)
    refine (repeats_token "(").bind fun _ => (repeats_arguments h).before fun args => ?_
    exact (repeats_take _ _).map _
  · simp only [hends.call, hends'.call]

/-- The closing parenthesis is taken, so nothing behind it has been looked at. -/
theorem repeats_parenthesized (h : inner.Repeats deep inner') :
    Repeats Ends deep (parenthesized inner) (parenthesized inner') :=
  (repeats_token "(").bind fun _ => h.expression.exactly.before fun _ => (repeats_token ")").map _

/-- Behind the first branch an `else` is looked for, and none of the tokens that may be
    exchanged is one. -/
theorem repeats_conditional (h : inner.Repeats deep inner') :
    Repeats Ends deep (conditional inner) (conditional inner') := by
  refine (repeats_token "if").bind fun opening => h.expression.exactly.before fun condition => ?_
  refine (repeats_token "then").bind fun _ => h.expression.bind fun thenBranch => ?_
  refine repeats_look (fun t => ?_) fun t t' hends hends' => ?_
  · refine Repeats.ite (Repeats.relax ?_) (repeats_pure _)
    exact (repeats_token "else").bind fun _ => h.expression.map _
  · simp only [hends.otherwise, hends'.otherwise]

/-! ### Blocks -/

/-- A declaration ends where its value does. -/
theorem repeats_declaration (h : inner.Repeats deep inner') :
    Repeats Ends deep (declaration inner) (declaration inner') := by
  refine (repeats_token "var").bind fun opening => repeats_name.bind fun t => ?_
  exact (repeats_token "=").bind fun _ => h.expression.map _

/-- A statement ends where its last expression does. -/
theorem repeats_statement (h : inner.Repeats deep inner') :
    Repeats Ends deep (statement inner) (statement inner') :=
  repeats_look_taking fun _ => Repeats.ite (repeats_declaration h) h.expression

/-- The token behind a statement decides what follows, so it has to stay. -/
theorem repeats_separator (earlier : List Expr) (last : Expr) :
    Repeats never deep (separator earlier last) (separator earlier last) := by
  refine repeats_look (fun t => ?_) fun _ _ ht => ht.elim
  refine Repeats.ite (Repeats.relax ?_) ?_
  · refine (repeats_token ";").bind fun semicolon => ?_
    exact repeats_look (fun _ => repeats_pure _) fun _ _ ht => ht.elim
  · refine Repeats.ite (repeats_pure _) (Repeats.ite (repeats_fail _ _) ?_)
    exact Repeats.ite (repeats_pure _) (repeats_fail _ _)

/-- The closing brace is taken. -/
theorem repeats_block (h : inner.Repeats deep inner') :
    Repeats Ends deep (block inner) (block inner') := by
  have hround : ∀ earlier : List Expr,
      Repeats never deep ((statement inner).bind fun e => separator earlier e)
        ((statement inner').bind fun e => separator earlier e) :=
    fun earlier => (repeats_statement h).exactly.bind fun e => repeats_separator earlier e
  refine (repeats_token "\x7b").bind fun opening => ?_
  refine (repeats_loop hround (fun _ ht => ht.elim) _).before fun statements => ?_
  exact (repeats_token "\x7d").map _

/-! ### Operators -/

/-- The first token chooses the rule, and it is taken or it stays. -/
theorem repeats_atom (h : inner.Repeats deep inner') :
    Repeats Ends deep (atom inner) (atom inner') := by
  refine repeats_look_taking fun t => ?_
  cases t.kind with
  | integer => exact repeats_integer
  | boolean => exact repeats_boolean
  | identifier =>
    exact Repeats.ite (repeats_conditional h)
      (Repeats.ite (repeats_fail _ _) (repeats_nameOrCall h))
  | punctuation =>
    exact Repeats.ite (repeats_parenthesized h) (Repeats.ite (repeats_block h) (repeats_fail _ _))
  | operator => exact repeats_fail _ _
  | endOfInput => exact repeats_fail _ _

/-- An operand in front of which an operator stands ends where the operand does. -/
theorem repeats_unary (h : inner.Repeats deep inner') :
    Repeats Ends deep (unary inner) (unary inner') :=
  repeats_look_taking fun _ =>
    Repeats.ite ((repeats_take _ _).bind fun _ => h.operand.map _) (repeats_atom h)

/-- A chain stops at a token that is none of its operators, and no end of an expression is an
    operator at all. -/
theorem repeats_chain {operators : List String} {operand operand' : Parser true Expr}
    (h : Repeats Ends deep operand operand') (hsub : operators ⊆ binaryLevels.flatten) :
    Repeats Ends deep (chain operators operand) (chain operators operand') :=
  h.bind <| repeats_loop (fun _ => (repeats_take _ _).bind fun _ => h.map _)
    fun _ hends => isAny_false_mono hends.operators hsub

/-- Operands of any levels, by induction on the levels. -/
theorem repeats_joined (h : inner.Repeats deep inner') {levels : List (List String)}
    (hsub : levels ⊆ binaryLevels) :
    Repeats Ends deep (levels.foldr chain (unary inner)) (levels.foldr chain (unary inner')) := by
  induction levels with
  | nil => exact repeats_unary h
  | cons operators tighter ih =>
    rw [List.cons_subset] at hsub
    exact repeats_chain (ih hsub.2) fun op hop => List.mem_flatten.2 ⟨operators, hsub.1, hop⟩

/-- An assignment ends where its value does, and the sign is no end. -/
theorem repeats_assignment (h : inner.Repeats deep inner') :
    Repeats Ends deep (assignment inner) (assignment inner') := by
  refine (repeats_joined h (List.Subset.refl _)).bind fun target => ?_
  refine repeats_look (fun t => ?_) fun t t' hends hends' => ?_
  · refine Repeats.ite ?_ (repeats_pure _)
    cases target with
    | name loc n => exact Repeats.relax ((repeats_token "=").bind fun _ => h.expression.map _)
    | _ => exact repeats_fail _ _
  · simp only [hends.assignment, hends'.assignment]
    rfl

/-! ## Levels -/

/-- One more level on both sides repeats one more level. -/
theorem Nested.Repeats.outer (h : inner.Repeats deep inner') :
    inner.outer.Repeats deep inner'.outer := ⟨repeats_assignment h, repeats_unary h⟩

/-- Where no level is left nothing succeeds. -/
theorem repeats_none (inner : Nested) : (nested 0).Repeats deep inner := by
  constructor <;>
  · intro last ts a rest hrun
    contradiction

/-- More levels do what fewer do. -/
theorem repeats_more (n k : Nat) : (nested n).Repeats False (nested (n + k)) := by
  induction n with
  | zero => exact repeats_none _
  | succ n ih =>
    rw [Nat.add_right_comm]
    exact ih.outer

/-- Without a level left there is nothing but the complaint. -/
theorem repeats_tooDeep {p : Parser true Expr} (h : Repeats Ends False p p) :
    Repeats Ends True p tooDeep := by
  intro last ts e rest hrun
  obtain ⟨used, hused, -⟩ := h _ _ _ _ hrun
  exact ⟨used, hused, fun _ _ _ => .inr ⟨trivial, _, rfl⟩⟩

/-- Fewer levels do what more do, or complain about nesting. -/
theorem repeats_any (n m : Nat) : (nested n).Repeats True (nested m) := by
  induction m generalizing n with
  | zero =>
    exact ⟨repeats_tooDeep (repeats_more n 0).expression,
      repeats_tooDeep (repeats_more n 0).operand⟩
  | succ m ih =>
    cases n with
    | zero => exact repeats_none _
    | succ n => exact (ih n).outer

end Grammar

end ExprLang
