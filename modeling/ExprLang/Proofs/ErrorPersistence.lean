/-
  ERRORS PERSIST: more tokens do not repair a program.

  `parse_append` compares the parse of some tokens with the parse of the same tokens and more.  An
  error that blames a token is final.  So while a program is being typed, the only complaint about
  a beginning of a correct program is that it ends too early — with one exception.  The bound on
  nesting is checked before the parser looks at the next token.  After the brace that brings a
  program to the bound an expression is refused although there may be none: the block may be
  empty.  The same goes for the parenthesis of a call.  `Empties` and `Declares` name the tokens
  that show it, and `parse_braces` is the shortest such program.

  Only the innermost rules, those with no level left, meet the exception.  `Nested.Steady` says
  of a pair of rules that both are firm, and that they either look before they refuse or refuse
  always.
-/
import ExprLang.Expr.Grammar
import ExprLang.Proofs.LongerInput

namespace ExprLang.Grammar

open ExprLang.Parser

/-! ## Where nesting is refused too early -/

/-- Whether tokens end with the opening of a block, or of the arguments of a call, that the next
    token closes. -/
def Empties (ts : List Token) (t : Token) : Prop :=
  (∃ opening, [opening] <:+ ts ∧ opening.is "\x7b" = true ∧ t.is "\x7d" = true) ∨
    ∃ f opening, [f, opening] <:+ ts ∧ (f.kind = .identifier ∧ f.text ∉ keywords) ∧
      opening.is "(" = true ∧ t.is ")" = true

/-- Whether tokens end with the opening of a block whose first statement is a declaration. -/
def Declares (ts : List Token) (t : Token) : Prop :=
  ∃ opening, [opening] <:+ ts ∧ opening.is "\x7b" = true ∧ t.is "var" = true

/-- The places where more tokens may help against nesting. -/
def exceptions : Exceptions
  | .closes => Empties
  | .declares => Declares

/-- The exceptions of a parser are those of its parts. -/
theorem under_exceptions : Under exceptions exceptions := by
  rintro (_ | _) front ts t hexc
  · rcases hexc with ⟨o, hsuffix, h⟩ | ⟨f, o, hsuffix, h⟩
    · exact .inl ⟨o, hsuffix.trans (List.suffix_append ..), h⟩
    · exact .inr ⟨f, o, hsuffix.trans (List.suffix_append ..), h⟩
  · obtain ⟨o, hsuffix, h⟩ := hexc
    exact ⟨o, hsuffix.trans (List.suffix_append ..), h⟩

/-- Behind any tokens the exceptions are exceptions. -/
theorem under_behind (t : Token) : Under exceptions (exceptions.behind t) :=
  under_exceptions.behind t

/-! ## Firm rules -/

/-- With no level left, every expression is refused. -/
def Nested.Spent (inner : Nested) : Prop :=
  ∀ last ts, ∃ loc, inner.expression.run last ts = .error (.tooDeep loc)

/-- With no level left there is no expression. -/
theorem Nested.Spent.never {inner : Nested} (h : inner.Spent) : Never inner.expression := by
  intro last ts
  obtain ⟨loc, hdeep⟩ := h last ts
  exact ⟨_, hdeep⟩

/-- A pair of rules that more tokens do not change, and that look before they refuse unless they
    refuse everything. -/
structure Nested.Steady (inner : Nested) : Prop where
  expression : Firm exceptions inner.expression
  operand : Firm exceptions inner.operand
  start : Mild inner.expression ∨ inner.Spent

/-- The end marker has no spelling, so an error at the end says what was expected there. -/
theorem mild_token (text : String) : Mild (token text) :=
  mild_take fun _ => Token.expected_endAt _ _

/-- A token taken, and what stands behind it. -/
theorem firm_token_bind {β : Type} {d : Bool} {exc : Exceptions} {text : String}
    {k : Token → Parser d β} (hk : ∀ t, t.is text = true → Firm (exc.behind t) (k t)) :
    Firm exc ((token text).bind k) := firm_take_bind (fun _ => Token.expected_endAt _ _) hk

/-- Taking a token with a certain spelling has no exceptions at all. -/
theorem firm_token {exc : Exceptions} (text : String) : Firm exc (token text) :=
  firm_take fun _ => Token.expected_endAt _ _

/-- Literals are single tokens. -/
theorem firm_integer : Firm exceptions integer := by
  refine firm_take_bind (fun _ => Token.expected_endAt _ _) fun t _ => ?_
  rcases Decimal.readInt64? t.text with _ | n
  · exact firm_fail _
  · exact firm_pure _

theorem firm_boolean : Firm exceptions boolean :=
  firm_map (firm_take fun _ => Token.expected_endAt _ _)

/-- Behind a name that was taken the exceptions are those behind it. -/
theorem firm_name_bind {β : Type} {d : Bool} {exc : Exceptions} {k : Token → Parser d β}
    (hk : ∀ t, t.kind = .identifier ∧ t.text ∉ keywords → Firm (exc.behind t) (k t)) :
    Firm exc (name.bind k) :=
  firm_take_bind (fun loc => Token.expected_endAt .name loc) fun t haccepts => hk t <| by
    simpa only [Bool.and_eq_true, decide_eq_true_eq, Bool.not_eq_true', List.contains_eq_mem,
      decide_eq_false_iff_not] using haccepts

section Rules

variable {inner : Nested} (hinner : inner.Steady)

include hinner

/-- Behind a name and an opening parenthesis the exception is the closing one. -/
theorem firm_arguments {f opening : Token} (hf : f.kind = .identifier ∧ f.text ∉ keywords)
    (hopening : opening.is "(" = true) :
    Firm ((exceptions.behind f).behind opening) (arguments inner) := by
  have hunder : Under exceptions ((exceptions.behind f).behind opening) :=
    fun turn front ts t hexc => under_exceptions turn (f :: opening :: front) ts t hexc
  have hround (args : List Expr) :
      Firm exceptions ((token ",").bind fun _ => inner.expression.map fun e => args ++ [e]) :=
    firm_token_bind fun comma _ => firm_map (hinner.expression.mono (under_behind comma))
  have hmild (args : List Expr) :
      Mild ((token ",").bind fun _ => inner.expression.map fun e => args ++ [e]) :=
    mild_bind (mild_token _)
  refine firm_look (fun t => firm_ite (fun _ => firm_pure _) fun _ => firm_relax ?_) ?_
  · refine Firm.mono (firm_bind hinner.expression (fun first => ?_) (fun first => ?_)
      under_exceptions) hunder
    · exact firm_loop hround hmild under_exceptions [first]
    · exact mild_loop hmild [first]
  · intro last e hrun
    have hrun' : (inner.expression.bind fun first =>
        loop (·.is ",") (fun args => (token ",").bind fun _ =>
          inner.expression.map fun e => args ++ [e]) [first]).run last [] = .error e := hrun
    -- either an expression is missing, or it was nested too deeply to look for one
    rcases hinner.start with hstart | hspent
    · exact .inl (mild_bind hstart hrun')
    · obtain ⟨loc, hdeep⟩ := hspent last []
      rw [run_bind, hdeep] at hrun'
      obtain rfl := Except.error.inj hrun'
      refine .inr (.inr ⟨⟨loc, rfl⟩, fun last' t more => ?_⟩)
      by_cases ht : t.is ")" = true
      · exact .inr (.inl (.inr ⟨f, opening, List.suffix_rfl, hf, hopening, ht⟩))
      · obtain ⟨loc', hdeep'⟩ := hspent last' (t :: more)
        refine .inl ⟨loc', ?_⟩
        rw [run_look]
        change (if t.is ")" = true then _ else _ : Parser false (List Expr)).run last'
          (t :: more) = _
        rw [if_neg ht, run_relax, run_bind, hdeep']
        rfl

/-- The argument list of a call is one of the two places where the exception is met. -/
theorem firm_nameOrCall : Firm exceptions (nameOrCall inner) := by
  refine firm_name_bind fun f hf => firm_look_mild (fun next => firm_ite (fun _ => ?_)
    fun _ => firm_pure _) fun hrun => by contradiction
  refine firm_relax (firm_token_bind fun opening hopening => ?_)
  exact firm_bind (firm_arguments hinner hf hopening)
    (fun args => firm_map (firm_take fun _ => Token.expected_endAt _ _))
    (fun args => mild_map (mild_take fun _ => Token.expected_endAt _ _))
    (fun turn front ts t hexc => under_exceptions turn (f :: opening :: front) ts t hexc)

/-- Parentheses have something in them, so a level is wanted in any case. -/
theorem firm_parenthesized : Firm exceptions (parenthesized inner) :=
  firm_token_bind fun opening _ =>
    (firm_bind hinner.expression (fun _ => firm_map (firm_token _))
      (fun _ => mild_map (mild_token _)) under_exceptions).mono (under_behind opening)

/-- So has a condition. -/
theorem firm_conditional : Firm exceptions (conditional inner) := by
  refine firm_token_bind fun opening _ => Firm.mono ?_ (under_behind opening)
  refine firm_bind hinner.expression (fun condition => ?_) (fun _ => mild_bind (mild_token _))
    under_exceptions
  refine firm_token_bind fun thenWord _ => Firm.mono ?_ (under_behind thenWord)
  have hmild (thenBranch : Expr) : Mild (look fun t =>
      if t.is "else" then
        relax <| (token "else").bind fun _ => inner.expression.map fun elseBranch =>
          Expr.ifElse opening.location condition thenBranch elseBranch
      else pure (.ifThen opening.location condition thenBranch)) := fun hrun => by contradiction
  refine firm_bind hinner.expression (fun thenBranch => firm_look_mild (fun t => ?_)
    (hmild thenBranch)) hmild under_exceptions
  exact firm_ite (fun _ => firm_relax <| firm_token_bind fun elseWord _ =>
    firm_map (hinner.expression.mono (under_behind elseWord))) fun _ => firm_pure _

/-! ### Blocks -/

/-- And a value. -/
theorem firm_declaration : Firm exceptions (declaration inner) :=
  firm_token_bind fun opening _ => Firm.mono (firm_name_bind fun f _ => Firm.mono
    (firm_token_bind fun sign _ => firm_map (hinner.expression.mono (under_behind sign)))
    (under_behind f)) (under_behind opening)

omit hinner in
/-- Behind a statement the end of the tokens is reported as such. -/
theorem mild_separator (earlier : List Expr) (e : Expr) : Mild (separator earlier e) := by
  intro last e' hrun
  obtain rfl := Except.error.inj hrun
  exact Token.expected_endAt _ _

omit hinner in
/-- What follows a statement is decided by one token. -/
theorem firm_separator (earlier : List Expr) (e : Expr) :
    Firm exceptions (separator earlier e) := by
  refine firm_look_mild (fun t => ?_) (mild_separator earlier e)
  refine firm_ite (fun _ => ?_) fun _ => firm_ite (fun _ => firm_pure _) fun _ =>
    firm_ite (fun _ => firm_fail _) fun _ => firm_ite (fun _ => firm_pure _) fun _ => firm_fail _
  exact firm_relax (firm_token_bind fun semicolon _ =>
    firm_look_mild (fun _ => firm_pure _) fun hrun => by contradiction)

omit hinner in
/-- With no level left there is no statement. -/
theorem never_statement (hspent : inner.Spent) : Never (statement inner) := by
  intro last ts
  rw [statement, run_look]
  split
  · exact never_bind_of_forall (fun _ => never_bind_of_forall fun _ => never_bind_of_forall
      fun _ => never_map hspent.never) last ts
  · exact hspent.never last ts

/-- With no level left, a statement may turn out a declaration. -/
theorem firm_statement_spent (hspent : inner.Spent) {opening : Token}
    (hopening : opening.is "\x7b" = true) :
    Firm (exceptions.behind opening) (statement inner) := by
  refine firm_look (fun t => firm_ite (fun _ => (firm_declaration hinner).mono (under_behind _))
    fun _ => hinner.expression.mono (under_behind _)) fun {last e} hrun => ?_
  obtain ⟨loc, hdeep⟩ := hspent last []
  change inner.expression.run last [] = _ at hrun
  rw [hdeep] at hrun
  obtain rfl := Except.error.inj hrun
  refine .inr (.inr ⟨⟨loc, rfl⟩, fun last' t more => ?_⟩)
  by_cases ht : t.is "var" = true
  · exact .inr (.inr ⟨⟨opening, List.suffix_rfl, hopening, ht⟩,
      never_statement hspent last' (t :: more)⟩)
  · obtain ⟨loc', hdeep'⟩ := hspent last' (t :: more)
    refine .inl ⟨loc', ?_⟩
    rw [run_look]
    change (if t.is "var" = true then _ else _ : Parser true Expr).run last' (t :: more) = _
    rw [if_neg ht, hdeep']

/-- The statements of a block, as a loop. -/
theorem firm_statements {opening : Token} (hopening : opening.is "\x7b" = true) :
    Firm (exceptions.behind opening) (loop (fun t => !t.is "\x7d")
      (fun earlier => (statement inner).bind fun e => separator earlier e) []) := by
  rcases hinner.start with hstart | hspent
  · have hstatement : Firm exceptions (statement inner) :=
      firm_look_mild (fun t => firm_ite (fun _ => firm_declaration hinner)
        fun _ => hinner.expression) hstart
    refine (firm_loop (fun earlier => firm_bind hstatement (firm_separator earlier)
      (mild_separator earlier) under_exceptions) (fun earlier => mild_bind ?_)
      under_exceptions []).mono (under_behind opening)
    exact hstart
  · have hstatement := firm_statement_spent hinner hspent hopening
    refine firm_loop_never (fun earlier => firm_bind_never hstatement (never_statement hspent))
      (fun earlier => never_bind (never_statement hspent)) ?_ ?_ []
    · intro earlier last e hrun
      obtain ⟨loc, hdeep⟩ := hspent last []
      rw [run_bind] at hrun
      change (inner.expression.run last []).bind _ = _ at hrun
      rw [hdeep] at hrun
      obtain rfl := Except.error.inj hrun
      exact ⟨loc, rfl⟩
    · intro t ht
      exact .inl ⟨opening, List.suffix_rfl, hopening, by simpa using ht⟩

/-- The statements of a block are the other place where the exception is met. -/
theorem firm_block : Firm exceptions (block inner) :=
  firm_token_bind fun opening hopening =>
    firm_bind (firm_statements hinner hopening) (fun _ => firm_map (firm_token _))
      (fun _ => mild_map (mild_token _)) (under_behind opening)

/-! ### Operators -/

/-- The first token chooses the rule, and the exceptions with it. -/
theorem firm_atom : Firm exceptions (atom inner) := by
  refine firm_look_mild (fun t => ?_) fun hrun => ?_
  · rcases t.kind <;> simp only
    · exact firm_ite (fun _ => firm_conditional hinner) fun _ =>
        firm_ite (fun _ => firm_fail _) fun _ => firm_nameOrCall hinner
    · exact firm_integer
    · exact firm_boolean
    · exact firm_fail _
    · exact firm_ite (fun _ => firm_parenthesized hinner) fun _ =>
        firm_ite (fun _ => firm_block hinner) fun _ => firm_fail _
    · exact firm_fail _
  · obtain rfl := Except.error.inj hrun
    exact Token.expected_endAt _ _

omit hinner in
/-- An operand that is missing is reported as such. -/
theorem mild_unary : Mild (unary inner) := by
  intro last e hrun
  obtain rfl := Except.error.inj hrun
  exact Token.expected_endAt _ _

/-- A sign is taken before its operand is refused. -/
theorem firm_unary : Firm exceptions (unary inner) := by
  refine firm_look_mild (fun t => firm_ite (fun _ => ?_) fun _ => firm_atom hinner) mild_unary
  exact firm_take_bind (fun _ => Token.expected_endAt _ _) fun op _ =>
    firm_map (hinner.operand.mono (under_behind op))

omit hinner in
/-- A chain starts with its first operand. -/
theorem mild_chain {operators : List String} {operand : Parser true Expr} (h : Mild operand) :
    Mild (chain operators operand) := mild_bind h

omit hinner in
/-- A chain is a loop, whose rounds are firm when its operand is. -/
theorem firm_chain {operators : List String} {operand : Parser true Expr}
    (h : Firm exceptions operand) : Firm exceptions (chain operators operand) := by
  have hmild (left : Expr) : Mild ((take (·.isAny operators) (·.expected .operand)).bind
      fun op => operand.map (Expr.binary op.location op.text left)) :=
    mild_bind (mild_take fun _ => Token.expected_endAt _ _)
  refine firm_bind h (firm_loop (fun left => ?_) hmild under_exceptions) (mild_loop hmild)
    under_exceptions
  exact firm_take_bind (fun _ => Token.expected_endAt _ _) fun op _ =>
    firm_map (h.mono (under_behind op))

/-- Level by level, from the tightest to the loosest. -/
theorem firm_binary : Firm exceptions (binary inner) ∧ Mild (binary inner) := by
  rw [binary]
  generalize binaryLevels = levels
  induction levels with
  | nil => exact ⟨firm_unary hinner, mild_unary⟩
  | cons operators levels ih => exact ⟨firm_chain ih.1, mild_chain ih.2⟩

/-- An assignment is refused for its target before its value is read. -/
theorem firm_assignment : Firm exceptions (assignment inner) := by
  -- where the input ends there is no sign, and the target is returned
  refine firm_bind (firm_binary hinner).1 (fun target => firm_look_mild (fun t => ?_)
    fun hrun => by contradiction) (fun target _ _ hrun => by contradiction) under_exceptions
  refine firm_ite (fun _ => ?_) fun _ => firm_pure _
  split
  · exact firm_relax (firm_token_bind fun sign _ =>
      firm_map (hinner.expression.mono (under_behind sign)))
  · exact firm_fail _

end Rules

/-- However many levels are left, the rules are firm. -/
theorem nested_steady (n : Nat) : (nested n).Steady := by
  induction n with
  | zero =>
    have hfirm : Firm exceptions tooDeep :=
      firm_look (fun _ => firm_fail _) fun {last e} hrun => by
        obtain rfl := Except.error.inj hrun
        exact .inr (.inr ⟨⟨last, rfl⟩, fun last' t more => .inl ⟨t.location, rfl⟩⟩)
    exact ⟨hfirm, hfirm, .inr fun last ts => ⟨_, rfl⟩⟩
  | succ n ih =>
    exact ⟨firm_assignment ih, firm_unary ih, .inl (mild_bind (firm_binary ih).2)⟩

/-! ## Whole programs -/

/-- Whether a program nests too deeply. -/
def Overdeep (tokens : List Token) : Prop := ∃ loc, parse tokens = .error (.tooDeep loc)

/-- A program is its first expression and nothing behind it. -/
theorem parse_cons {first : Token} {rest : List Token} (hfirst : first.is "var" = false) :
    parse (first :: rest) =
      ((nested maxDepth).expression.run (endLocation (first :: rest)) (first :: rest)).bind
        fun r =>
          if (current (endLocation (first :: rest)) r.2).kind = .endOfInput then .ok (some r.1)
          else .error (.trailingToken (current (endLocation (first :: rest)) r.2).text
            (current (endLocation (first :: rest)) r.2).location) := by
  rw [parse, hfirst, if_neg Bool.false_ne_true]
  rcases (nested maxDepth).expression.run (endLocation (first :: rest)) (first :: rest) with e | r
  · rfl
  · rfl

/-- An error says that the program has ended, or is final, or may be got past where there is no
    expression after all. -/
theorem parse_more {p : List Token} {e : ParseError} (h : parse p = .error e) :
    e.AtEnd ∨ (∀ r, parse (p ++ r) = .error e) ∨ e.IsDeep ∧ ∀ t r,
      Overdeep (p ++ t :: r) ∨ Empties p t ∨
        Declares p t ∧ ∃ e', parse (p ++ t :: r) = .error e' := by
  have hfirm := (nested_steady maxDepth).expression
  cases p with
  | nil => contradiction
  | cons first rest =>
    rcases hfirst : first.is "var" with _ | _
    · -- the first expression is refused, or there is more behind it
      have hrun {e : ParseError} {r : List Token}
          (he : (nested maxDepth).expression.run (endLocation (first :: (rest ++ r)))
            (first :: (rest ++ r)) = .error e) : parse (first :: (rest ++ r)) = .error e := by
        rw [parse_cons hfirst, he]
        rfl
      rw [parse_cons hfirst] at h
      rcases hexpr : (nested maxDepth).expression.run (endLocation (first :: rest))
        (first :: rest) with e' | ⟨tree, left⟩ <;> rw [hexpr] at h
      · obtain rfl := Except.error.inj h
        rcases hfirm.refuses hexpr with hend | hfinal | ⟨hdeep, hagain⟩
        · exact .inl hend
        · exact .inr (.inl fun r => hrun (hfinal _ r))
        · refine .inr (.inr ⟨hdeep, fun t r => ?_⟩)
          rcases hagain (endLocation (first :: (rest ++ t :: r))) t r with
            ⟨loc, he⟩ | hcloses | ⟨hdeclares, e'', he⟩
          · exact .inl ⟨loc, hrun he⟩
          · exact .inr (.inl hcloses)
          · exact .inr (.inr ⟨hdeclares, e'', hrun he⟩)
      · obtain ⟨used, hused, hmore⟩ := hfirm.accepts hexpr
        rcases hmore with rfl | hmore
        · contradiction
        · cases left with
          | nil => contradiction
          | cons next left =>
            refine .inr (.inl fun r => ?_)
            rw [List.cons_append, parse_cons hfirst, ← List.cons_append, hmore]
            exact h
    · -- a declaration is refused at once
      rw [parse, hfirst, if_pos rfl] at h
      refine .inr (.inl fun r => ?_)
      rw [List.cons_append, parse, hfirst, if_pos rfl]
      exact h

/-- A token has one spelling. -/
theorem eq_of_is {t : Token} {a b : String} (ha : t.is a = true) (hb : t.is b = true) : a = b := by
  simp only [Token.is, Bool.and_eq_true, decide_eq_true_eq] at ha hb
  exact ha.2.symm.trans hb.2

/-- The token that opens a block or some arguments neither closes nor declares anything. -/
theorem not_exception_of_exception {front : List Token} {opening t : Token}
    (h : Empties (front ++ [opening]) t ∨ Declares (front ++ [opening]) t) :
    ¬Empties front opening ∧ ¬Declares front opening := by
  have hopening : opening.is "\x7b" = true ∨ opening.is "(" = true := by
    have hlast (us : List Token) {o : Token} (hsuffix : us ++ [o] <:+ front ++ [opening]) :
        o = opening := by
      obtain ⟨before, hbefore⟩ := hsuffix
      rw [← List.append_assoc] at hbefore
      exact (List.append_inj' hbefore rfl).2 |> List.singleton_inj.1
    rcases h with (⟨o, hsuffix, ho, -⟩ | ⟨f, o, hsuffix, -, ho, -⟩) | ⟨o, hsuffix, ho, -⟩
    · exact .inl (hlast [] hsuffix ▸ ho)
    · exact .inr (hlast [f] hsuffix ▸ ho)
    · exact .inl (hlast [] hsuffix ▸ ho)
  constructor
  · rintro (⟨-, -, -, hcloses⟩ | ⟨-, -, -, -, -, hcloses⟩) <;>
      rcases hopening with ho | ho <;> exact absurd (eq_of_is ho hcloses) (by decide)
  · rintro ⟨-, -, -, hdeclares⟩
    rcases hopening with ho | ho <;> exact absurd (eq_of_is ho hdeclares) (by decide)

/-- Where more tokens help against nesting, the last token alone has brought the program to the
    bound. -/
theorem not_overdeep_dropLast {p r : List Token} {t : Token}
    (hexc : Empties p t ∨ Declares p t) (h : ¬Overdeep (p ++ r)) : ¬Overdeep p.dropLast := by
  rcases List.eq_nil_or_concat p with rfl | ⟨front, opening, rfl⟩
  · rintro ⟨loc, hloc⟩
    contradiction
  · rw [List.concat_eq_append] at hexc h ⊢
    obtain ⟨hempties, hdeclares⟩ := not_exception_of_exception hexc
    rw [List.dropLast_concat]
    rw [List.append_assoc, List.singleton_append] at h
    rintro ⟨loc, hloc⟩
    rcases parse_more hloc with hend | hfinal | ⟨-, hagain⟩
    · exact ParseError.IsDeep.not_atEnd ⟨loc, rfl⟩ hend
    · exact h ⟨loc, hfinal _⟩
    · rcases hagain opening r with hdeep | hcloses | ⟨hdeclares', -⟩
      · exact h hdeep
      · exact hempties hcloses
      · exact hdeclares hdeclares'

/-- An error at a token is final.  Only where the last token brings a program to the bound on
    nesting, by opening a block or some arguments, may the next one show that there is no
    expression to refuse.  So a beginning of a program that parses either parses, or ends too
    early, or opens at the bound what the next token closes. -/
theorem parse_append (p r : List Token) :
    (∀ e, parse p = .error e → ¬e.AtEnd → parse (p ++ r) = .error e ∨
      e.IsDeep ∧ (Overdeep (p ++ r) ∨
        ¬Overdeep p.dropLast ∧ ∃ t ∈ r.head?, Empties p t ∨ Declares p t)) ∧
    ∀ tree, parse (p ++ r) = .ok tree → (∃ tree', parse p = .ok tree') ∨
      (∃ e, parse p = .error e ∧ e.AtEnd) ∨
      Overdeep p ∧ ¬Overdeep p.dropLast ∧ ∃ t ∈ r.head?, Empties p t := by
  constructor
  · intro e he hend
    rcases parse_more he with hend' | hfinal | ⟨hdeep, hagain⟩
    · exact absurd hend' hend
    · exact .inl (hfinal r)
    · cases r with
      | nil => exact .inl (by rw [List.append_nil, he])
      | cons t more =>
        refine .inr ⟨hdeep, ?_⟩
        by_cases hover : Overdeep (p ++ t :: more)
        · exact .inl hover
        · have hexc : Empties p t ∨ Declares p t :=
            ((hagain t more).resolve_left hover).imp id And.left
          exact .inr ⟨not_overdeep_dropLast hexc hover, t, rfl, hexc⟩
  · intro tree htree
    rcases hp : parse p with e | tree'
    · refine .inr ?_
      rcases parse_more hp with hend | hfinal | ⟨⟨loc, rfl⟩, hagain⟩
      · exact .inl ⟨e, rfl, hend⟩
      · rw [hfinal] at htree
        contradiction
      -- the longer program parses, so it is not nested too deeply
      · have hover : ¬Overdeep (p ++ r) := by
          rintro ⟨loc', hloc'⟩
          rw [hloc'] at htree
          contradiction
        cases r with
        | nil =>
          rw [List.append_nil, hp] at htree
          contradiction
        | cons t more =>
          refine .inr ⟨⟨loc, hp⟩, ?_⟩
          rcases hagain t more with hdeep | hcloses | ⟨-, e', he'⟩
          · exact absurd hdeep hover
          · exact ⟨not_overdeep_dropLast (.inl hcloses) hover, t, rfl, hcloses⟩
          · rw [he'] at htree
            contradiction
    · exact .inl ⟨tree', rfl⟩

/-- What a parse complains about. -/
def complaint? (tokens : List Token) : Option ParseError :=
  match parse tokens with
  | .error e => some e
  | .ok _ => none

/-- The complaint about some tokens is the error that they are refused with. -/
theorem complaint?_eq_some {tokens : List Token} {e : ParseError} :
    complaint? tokens = some e ↔ parse tokens = .error e := by
  unfold complaint?
  split
  · rename_i e' he
    rw [he, Option.some.injEq, Except.error.injEq]
  · rename_i tree hok
    simp [hok]

/-- Some braces in a row, the first of them at a column. -/
def braces (text : String) (column count : Nat) : List Token :=
  (List.range' column count).map fun i => ⟨.punctuation, text, .known ⟨1, i⟩⟩

/-- After the last brace that fits, the level is missing for whatever might follow. -/
theorem parse_openings :
    parse (braces "\x7b" 1 maxDepth) = .error (.tooDeep (.known ⟨1, maxDepth⟩)) :=
  complaint?_eq_some.1 (by decide +kernel)

/-- But nothing has to follow: the blocks may be empty. -/
theorem parse_openings_closings : ∃ tree,
    parse (braces "\x7b" 1 maxDepth ++ braces "\x7d" (maxDepth + 1) maxDepth) = .ok tree := by
  have hnone : complaint? (braces "\x7b" 1 maxDepth ++ braces "\x7d" (maxDepth + 1) maxDepth)
      = none := by decide +kernel
  rcases hparse : parse (braces "\x7b" 1 maxDepth ++ braces "\x7d" (maxDepth + 1) maxDepth) with
    e | tree
  · rw [complaint?_eq_some.2 hparse] at hnone
    contradiction
  · exact ⟨tree, rfl⟩

/-- As many blocks as the bound allows, each in the one before, are a program; of their opening
    braces the last is refused as too deep, although no expression has to stand behind it. -/
theorem parse_braces : ¬∀ (p r : List Token) (e : ParseError), parse p = .error e → ¬e.AtEnd →
    parse (p ++ r) = .error e ∨ e.IsDeep ∧ Overdeep (p ++ r) := by
  intro h
  obtain ⟨tree, htree⟩ := parse_openings_closings
  rcases h _ (braces "\x7d" (maxDepth + 1) maxDepth) _ parse_openings
    (ParseError.IsDeep.not_atEnd ⟨_, rfl⟩) with hsame | ⟨-, loc, hdeep⟩
  · rw [htree] at hsame
    contradiction
  · rw [htree] at hdeep
    contradiction

/-- A closing brace too many is refused whatever follows; the opening braces at the bound are
    refused for nesting alone, and only because the last of them is there. -/
theorem parse_append_braces :
    parse (braces "\x7d" 1 1 ++ braces "\x7b" 2 1)
      = .error (.expected .operand (some "\x7d") (.known ⟨1, 1⟩)) ∧
    ¬Overdeep (braces "\x7b" 1 maxDepth).dropLast ∧
    Empties (braces "\x7b" 1 maxDepth) ⟨.punctuation, "\x7d", .known ⟨1, maxDepth + 1⟩⟩ := by
  constructor
  · have hclosing : parse (braces "\x7d" 1 1)
        = .error (.expected .operand (some "\x7d") (.known ⟨1, 1⟩)) :=
      complaint?_eq_some.1 (by decide +kernel)
    refine ((parse_append _ (braces "\x7b" 2 1)).1 _ hclosing ?_).resolve_right ?_
    · rintro ⟨wanted, loc, h⟩
      simp only [ParseError.expected.injEq, reduceCtorEq, false_and, and_false] at h
    · rintro ⟨⟨loc, h⟩, -⟩
      contradiction
  · obtain ⟨tree, htree⟩ := parse_openings_closings
    have hopenings := parse_openings
    rcases (parse_append _ _).2 tree htree with
      ⟨tree', hok⟩ | ⟨e, he, hend⟩ | ⟨-, hbefore, t, ht, hempties⟩
    · rw [hopenings] at hok
      contradiction
    · rw [hopenings] at he
      obtain rfl := Except.error.inj he
      exact absurd hend (ParseError.IsDeep.not_atEnd ⟨_, rfl⟩)
    · obtain rfl : _ = t := Option.some.inj ht
      exact ⟨hbefore, hempties⟩

end ExprLang.Grammar
