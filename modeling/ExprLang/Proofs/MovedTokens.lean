/-
  MOVED TOKENS: the tree of a program whose tokens stand somewhere else.

  `Moves place f p q` says that `q` does with moved tokens what `p` does with the tokens
  themselves: it takes as many of them, and makes of them what `f` makes of the result of `p`; or
  it refuses with the same error, moved.  There is one rule for each combinator and one for each
  rule of the grammar.  They all hold because a parser looks at the kind and the text of a token
  and does nothing with its location but pass it on.
-/
import ExprLang.Relabeling

namespace ExprLang

variable {place : Location → Location}

namespace Token

/-- Moving a token changes neither its kind nor its text, which is all that a parser tests. -/
@[simp] theorem kind_move (t : Token) : (t.move place).kind = t.kind := rfl

@[simp] theorem text_move (t : Token) : (t.move place).text = t.text := rfl

@[simp] theorem location_move (t : Token) : (t.move place).location = place t.location := rfl

/-- So a spelling is recognised wherever the token stands. -/
@[simp] theorem is_move (t : Token) (text : String) : (t.move place).is text = t.is text := rfl

/-- What is said about an unexpected token is said at its new place. -/
@[simp] theorem expected_move (t : Token) (wanted : Wanted) :
    (t.move place).expected wanted = (t.expected wanted).move place := rfl

end Token

/-- The end marker moves along with the last token, so what stands in front of a parser is the moved
    token, also behind all of them. -/
@[simp] theorem current_move (last : Location) (ts : List Token) :
    current (place last) (ts.map (Token.move place)) = (current last ts).move place := by
  cases ts <;> rfl

/-! ## Parsers of moved tokens -/

namespace Parser

variable {α α' β β' σ σ' : Type} {c d : Bool}

/-- The outcome of a run with everything in it moved. -/
def moved (place : Location → Location) (f : α → α') :
    Except ParseError (α × List Token) → Except ParseError (α' × List Token)
  | .ok (a, rest) => .ok (f a, rest.map (Token.move place))
  | .error e => .error (e.move place)

/-- The second parser does with moved tokens what the first one does with the tokens. -/
def Moves (place : Location → Location) (f : α → α') (p : Parser c α) (q : Parser c α') : Prop :=
  ∀ last ts, q.run (place last) (ts.map (Token.move place)) = moved place f (p.run last ts)

variable {f : α → α'} {g : β → β'}

/-- A parser that takes nothing moves when its result does. -/
theorem moves_pure {a : α} {a' : α'} (h : f a = a') : Moves place f (pure a) (pure a') :=
  fun _ _ => h ▸ rfl

/-- A refusal moves when its error does. -/
theorem moves_fail {e e' : ParseError} (h : e.move place = e') :
    Moves place f (fail e : Parser c α) (fail e') := fun _ _ => h ▸ rfl

/-- One token is taken on either side, or refused on either side, if the test does not ask for its
    place. -/
theorem moves_take {accepts : Token → Bool} {refusal : Token → ParseError}
    (haccepts : ∀ t, accepts (t.move place) = accepts t)
    (hrefusal : ∀ t, refusal (t.move place) = (refusal t).move place) :
    Moves place (Token.move place) (take accepts refusal) (take accepts refusal) := by
  intro last ts
  cases ts with
  | nil => exact congrArg Except.error (hrefusal (Token.endAt last))
  | cons t rest =>
    simp only [take, List.map_cons, haccepts, hrefusal]
    split <;> rfl

/-- The test for a spelling is such a test. -/
theorem moves_token (text : String) :
    Moves place (Token.move place) (token text) (token text) :=
  moves_take (fun _ => rfl) fun _ => rfl

/-- The second parser starts from the moved result, behind the moved tokens. -/
theorem Moves.bind {p : Parser c α} {q : Parser c α'} {k : α → Parser d β}
    {k' : α' → Parser d β'} (hp : Moves place f p q)
    (hk : ∀ a, Moves place g (k a) (k' (f a))) : Moves place g (p.bind k) (q.bind k') := by
  intro last ts
  rw [run_bind, run_bind, hp last ts]
  rcases p.run last ts with e | ⟨a, rest⟩
  · rfl
  · exact hk a last rest

/-- A result may be built from the moved part, if building and moving can be exchanged. -/
theorem Moves.map {p : Parser c α} {q : Parser c α'} {h : α → β} {h' : α' → β'}
    (hp : Moves place f p q) (hf : ∀ a, h' (f a) = g (h a)) :
    Moves place g (p.map h) (q.map h') := by
  intro last ts
  rw [run_map, run_map, hp last ts]
  rcases p.run last ts with e | ⟨a, rest⟩
  · rfl
  · exact congrArg (fun b => Except.ok (b, rest.map (Token.move place))) (hf a)

/-- Looking ahead sees the moved token. -/
theorem moves_look {k : Token → Parser c α} {k' : Token → Parser c α'}
    (hk : ∀ t, Moves place f (k t) (k' (t.move place))) : Moves place f (look k) (look k') := by
  intro last ts
  rw [run_look, run_look, current_move]
  exact hk (current last ts) last ts

/-- What a parser is known to take plays no part in where the tokens stand. -/
theorem Moves.relax {p : Parser c α} {q : Parser c α'} (hp : Moves place f p q) :
    Moves place f p.relax q.relax := hp

/-- A test that does not depend on places chooses the same side for both. -/
theorem Moves.ite {b : Prop} [Decidable b] {p₁ p₂ : Parser c α} {q₁ q₂ : Parser c α'}
    (h₁ : Moves place f p₁ q₁) (h₂ : Moves place f p₂ q₂) :
    Moves place f (if b then p₁ else p₂) (if b then q₁ else q₂) := by
  split
  · exact h₁
  · exact h₂

/-- A loop goes as many rounds as before, since its test asks for no location. -/
theorem moves_loop {h : σ → σ'} {test : Token → Bool} {step : σ → Parser true σ}
    {step' : σ' → Parser true σ'} (htest : ∀ t, test (t.move place) = test t)
    (hstep : ∀ s, Moves place h (step s) (step' (h s))) (s : σ) :
    Moves place h (loop test step s) (loop test step' (h s)) := by
  intro last ts
  show (loop test step' (h s)).run (place last) (ts.map (Token.move place))
    = moved place h (loopRun test step last s ts)
  fun_induction loopRun test step last s ts with
  | case1 s ts hgoes next rest hround ih =>
    rw [run_loop, current_move, htest, if_pos hgoes, hstep s last ts, hround]
    exact ih
  | case2 s ts hgoes e hround =>
    rw [run_loop, current_move, htest, if_pos hgoes, hstep s last ts, hround]
    rfl
  | case3 s ts hstops =>
    rw [run_loop, current_move, htest, if_neg hstops]
    rfl

end Parser

/-! ## Moved trees -/

/-- The same tree at other places. -/
abbrev Expr.move (place : Location → Location) (e : Expr) : Expr := e.relabel place .none

namespace Grammar

open ExprLang.Parser

/-- The rules one level deeper build moved trees of moved tokens. -/
structure Nested.Moved (place : Location → Location) (inner : Nested) : Prop where
  expression : Moves place (Expr.move place) inner.expression inner.expression
  operand : Moves place (Expr.move place) inner.operand inner.operand

/-- The value of a literal depends on its digits only. -/
theorem moves_integer : Moves place (Expr.move place) integer integer := by
  refine (moves_take (fun _ => rfl) fun _ => rfl).bind fun t => ?_
  simp only [Token.text_move, Token.location_move]
  cases Decimal.readInt64? t.text with
  | none => exact moves_fail rfl
  | some n => exact moves_pure rfl

/-- Which Boolean it is depends on the spelling only. -/
theorem moves_boolean : Moves place (Expr.move place) boolean boolean :=
  (moves_take (fun _ => rfl) fun _ => rfl).map fun _ => rfl

/-- A name is refused for what it is, a keyword or no name at all, and at its new place. -/
theorem moves_name : Moves place (Token.move place) name name := by
  refine moves_take (fun _ => rfl) fun t => ?_
  show (if t.kind = .identifier then _ else _) = ParseError.move place (if t.kind = .identifier
    then _ else _)
  split <;> rfl

section Rules

variable {inner : Nested} (hinner : inner.Moved place)

include hinner

/-- Arguments are read by a loop that looks for commas, so this is the rule for loops. -/
theorem moves_arguments :
    Moves place (List.map (Expr.move place)) (arguments inner) (arguments inner) := by
  refine moves_look fun t => .ite (moves_pure rfl) (.relax ?_)
  refine hinner.expression.bind fun first => ?_
  refine moves_loop (fun _ => rfl) (fun args => ?_) [first]
  refine (moves_token ",").bind fun _ => hinner.expression.map fun e => ?_
  simp only [List.map_append, List.map_cons, List.map_nil]

/-- A call stands where its name stands. -/
theorem moves_nameOrCall :
    Moves place (Expr.move place) (nameOrCall inner) (nameOrCall inner) := by
  refine moves_name.bind fun t => moves_look fun next => .ite (.relax ?_) (moves_pure rfl)
  refine (moves_token "(").bind fun _ => (moves_arguments hinner).bind fun args => ?_
  refine (moves_take (fun _ => rfl) fun _ => rfl).map fun _ => ?_
  exact congrArg (Expr.call _ _) (Expr.relabelAll_eq_map place .none args).symm

/-- Parentheses leave nothing in the tree, so only the expression between them moves. -/
theorem moves_parenthesized :
    Moves place (Expr.move place) (parenthesized inner) (parenthesized inner) :=
  (moves_token "(").bind fun _ => hinner.expression.bind fun _ =>
    (moves_token ")").map fun _ => rfl

/-- A conditional stands at its first word, wherever that has moved. -/
theorem moves_conditional :
    Moves place (Expr.move place) (conditional inner) (conditional inner) := by
  refine (moves_token "if").bind fun opening => hinner.expression.bind fun condition => ?_
  refine (moves_token "then").bind fun _ => hinner.expression.bind fun thenBranch => ?_
  refine moves_look fun t => .ite (.relax ?_) (moves_pure rfl)
  exact (moves_token "else").bind fun _ => hinner.expression.map fun _ => rfl

/-- A declaration stands at its first word as well. -/
theorem moves_declaration :
    Moves place (Expr.move place) (declaration inner) (declaration inner) :=
  (moves_token "var").bind fun _ => moves_name.bind fun _ => (moves_token "=").bind fun _ =>
    hinner.expression.map fun _ => rfl

/-- Whether a statement is a declaration is told by its first word, not by its place. -/
theorem moves_statement : Moves place (Expr.move place) (statement inner) (statement inner) :=
  moves_look fun _ => .ite (moves_declaration hinner) hinner.expression

omit hinner in
/-- What may follow a statement depends on the form of its tree, which moving does not change; the
    unit value behind a last semicolon stands where that semicolon does. -/
theorem moves_separator (earlier : List Expr) (e : Expr) :
    Moves place (List.map (Expr.move place)) (separator earlier e)
      (separator (earlier.map (Expr.move place)) (e.move place)) := by
  have hcompound : (e.move place).isCompound = e.isCompound := by cases e <;> rfl
  have hopen : (earlier ++ [e]).map (Expr.move place)
      = earlier.map (Expr.move place) ++ [e.move place] := List.map_append
  refine moves_look fun t => .ite (.relax ?_) (.ite (moves_pure hopen) (.ite (moves_fail rfl) ?_))
  · refine (moves_token ";").bind fun semicolon => moves_look fun next => moves_pure ?_
    cases hclosing : next.is "\x7d" <;> simp [hclosing, Expr.relabel]
  · rw [hcompound]
    exact .ite (moves_pure hopen) (moves_fail rfl)

/-- A block is a loop over statements between braces. -/
theorem moves_block : Moves place (Expr.move place) (block inner) (block inner) := by
  refine (moves_token "\x7b").bind fun opening => ?_
  refine (moves_loop (h := List.map (Expr.move place)) (fun _ => rfl) (fun earlier => ?_) []).bind
    fun statements => (moves_token "\x7d").map fun _ => ?_
  · exact (moves_statement hinner).bind fun e => moves_separator earlier e
  · exact congrArg (Expr.block _) (Expr.relabelAll_eq_map place .none statements).symm

/-- An operand is chosen by the kind and the spelling of the token in front of it. -/
theorem moves_atom : Moves place (Expr.move place) (atom inner) (atom inner) := by
  refine moves_look fun t => ?_
  simp only [Token.kind_move, Token.text_move, Token.location_move, Token.expected_move]
  cases t.kind with
  | integer => exact moves_integer
  | boolean => exact moves_boolean
  | identifier =>
    exact .ite (moves_conditional hinner) (.ite (moves_fail rfl) (moves_nameOrCall hinner))
  | punctuation =>
    exact .ite (moves_parenthesized hinner) (.ite (moves_block hinner) (moves_fail rfl))
  | operator | endOfInput => exact moves_fail rfl

/-- An operator in front stands at its sign. -/
theorem moves_unary : Moves place (Expr.move place) (unary inner) (unary inner) := by
  refine moves_look fun t => .ite ?_ (moves_atom hinner)
  exact (moves_take (fun _ => rfl) fun _ => rfl).bind fun _ => hinner.operand.map fun _ => rfl

omit hinner in
/-- A chain of operators is a loop over operands, and each operator stands at its sign. -/
theorem moves_chain (operators : List String) {operand : Parser true Expr}
    (hoperand : Moves place (Expr.move place) operand operand) :
    Moves place (Expr.move place) (chain operators operand) (chain operators operand) := by
  refine hoperand.bind fun first => moves_loop (fun _ => rfl) (fun left => ?_) first
  exact (moves_take (fun _ => rfl) fun _ => rfl).bind fun _ => hoperand.map fun _ => rfl

/-- All levels of operators are chains over the one below, so this is `moves_chain` level by
    level. -/
theorem moves_binary : Moves place (Expr.move place) (binary inner) (binary inner) := by
  unfold binary
  induction binaryLevels with
  | nil => exact moves_unary hinner
  | cons level rest ih => exact moves_chain level ih

/-- Whether something can be assigned to depends on the form of its tree. -/
theorem moves_assignment :
    Moves place (Expr.move place) (assignment inner) (assignment inner) := by
  refine (moves_binary hinner).bind fun target => moves_look fun t => .ite ?_ (moves_pure rfl)
  cases target with
  | name nameLoc n =>
    exact .relax ((moves_token "=").bind fun _ => hinner.expression.map fun _ => rfl)
  | _ => exact moves_fail rfl

end Rules

/-! ## Whole programs -/

/-- However many levels are left, the rules build moved trees of moved tokens. -/
theorem nested_moved (n : Nat) : (nested n).Moved place := by
  induction n with
  | zero =>
    have hdeep : Moves place (Expr.move place) tooDeep tooDeep :=
      moves_look fun _ => moves_fail rfl
    exact ⟨hdeep, hdeep⟩
  | succ n ih => exact ⟨moves_assignment ih, moves_unary ih⟩

/-- The tree of moved tokens is the moved tree, and the error the moved error. -/
theorem parse_move (tokens : List Token) :
    parse (tokens.map (Token.move place)) =
      ((parse tokens).map (Option.map (Expr.move place))).mapError (ParseError.move place) := by
  cases tokens with
  | nil => rfl
  | cons first rest =>
    -- a list with a token in it ends where its last token stands
    have hlast : endLocation ((first :: rest).map (Token.move place))
        = place (endLocation (first :: rest)) := by
      simp only [endLocation, List.getLast?_map]
      cases hgetLast : (first :: rest).getLast? with
      | none => simp at hgetLast
      | some t => rfl
    by_cases hvar : first.is "var" = true
    · simp only [parse, List.map_cons, Token.is_move, if_pos hvar]
      rfl
    · simp only [parse, List.map_cons, Token.is_move, if_neg hvar]
      rw [← List.map_cons, hlast, (nested_moved maxDepth).expression]
      rcases (nested maxDepth).expression.run (endLocation (first :: rest)) (first :: rest)
        with e | ⟨e, left⟩
      · rfl
      · simp only [moved, current_move]
        show (if (current _ left).kind = .endOfInput then _ else _) = Except.mapError _
          (Except.map _ (if (current _ left).kind = .endOfInput then _ else _))
        split <;> rfl

end Grammar
end ExprLang
