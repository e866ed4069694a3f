/-
  PARSED TREES: the shape of everything that the grammar builds.

  `Expr.Fits names place e` says that `e` could have been read where `place` says: a declaration
  only as a statement of a block, a unit literal only as the last of several statements, a name on
  the left of `=` and in front of an argument list, operators only of the grammar's own tables.
  `names` says which identifiers there are; a list of tokens decides that, not the grammar.

  `fits_of_parse` is the one result: a parsed program fits the place of a value.  Each rule of the
  grammar has a lemma of its own, against the pair of rules one level deeper, and the induction
  over the levels comes last.
-/
import ExprLang.Expr.Grammar
import ExprLang.Proofs.ParserLogic

namespace ExprLang

/-! ## The shape of a tree -/

/-- Where a tree stands: where a value is wanted, as a statement of a block, or as its last
    statement behind others. -/
inductive Place where
  | value
  | statement
  | ending
deriving DecidableEq

namespace Expr

/-- Whether a tree is a name. -/
def isName : Expr → Bool
  | .name _ _ => true
  | _ => false

variable (names : String → Prop)

mutual

/-- Whether a tree could have been read at a place. -/
def Fits (place : Place) : Expr → Prop
  | .int _ _ => True
  | .bool _ _ => True
  | .unit _ => place = .ending
  | .name _ n => names n
  | .unary _ op operand => op ∈ Grammar.unaryOperators ∧ operand.Fits .value
  | .binary _ op left right =>
    (op = "=" ∧ left.isName = true ∨ op ∈ Grammar.binaryLevels.flatten)
      ∧ left.Fits .value ∧ right.Fits .value
  | .ifThen _ condition thenBranch => condition.Fits .value ∧ thenBranch.Fits .value
  | .ifElse _ condition thenBranch elseBranch =>
    condition.Fits .value ∧ thenBranch.Fits .value ∧ elseBranch.Fits .value
  | .call _ function arguments =>
    function.isName = true ∧ function.Fits .value ∧ FitAll arguments
  | .var _ n value => place ≠ .value ∧ names n ∧ value.Fits .value
  | .block _ statements => FitBody .statement statements

/-- Whether some trees could have been read as arguments. -/
def FitAll : List Expr → Prop
  | [] => True
  | e :: rest => e.Fits .value ∧ FitAll rest

/-- Whether some trees could have been read as statements, of which the last one fits `last`. -/
def FitBody (last : Place) : List Expr → Prop
  | [] => True
  | e :: rest => e.Fits (if rest.isEmpty then last else .statement) ∧ FitBody .ending rest

end

variable {names}

/-- A statement that may stand anywhere in a block may stand at its end. -/
theorem Fits.ending {e : Expr} (h : e.Fits names .statement) : e.Fits names .ending := by
  cases e with
  | unit loc => simp [Fits] at h
  | var loc n value =>
    simp only [Fits] at h ⊢
    exact ⟨by decide, h.2⟩
  | _ => exact h

/-- What fits a value fits a statement. -/
theorem Fits.statement {e : Expr} (h : e.Fits names .value) : e.Fits names .statement := by
  cases e with
  | unit loc => simp [Fits] at h
  | var loc n value => simp [Fits] at h
  | _ => exact h

/-- The argument lists are built at the end: one more value may follow. -/
theorem fitAll_append {es : List Expr} {e : Expr} (hes : FitAll names es)
    (he : e.Fits names .value) : FitAll names (es ++ [e]) := by
  induction es with
  | nil => exact ⟨he, trivial⟩
  | cons first rest ih => exact ⟨hes.1, ih hes.2⟩

/-- Statements none of which is a unit literal, so that more may follow. -/
def OpenBody (names : String → Prop) (es : List Expr) : Prop := ∀ e ∈ es, e.Fits names .statement

/-- The statements of a block are built at the end: one more may follow. -/
theorem OpenBody.append {es : List Expr} {e : Expr} (hes : OpenBody names es)
    (he : e.Fits names .statement) : OpenBody names (es ++ [e]) := by
  intro e' hmem
  rcases List.mem_append.1 hmem with h | h
  · exact hes e' h
  · rw [List.mem_singleton.1 h]
    exact he

/-- Open statements with one more, which may be a unit literal unless it stands alone. -/
theorem OpenBody.fitBody {es : List Expr} {e : Expr} {place : Place} (hes : OpenBody names es)
    (he : e.Fits names (if es.isEmpty then place else .ending)) :
    FitBody names place (es ++ [e]) := by
  induction es generalizing place with
  | nil => exact ⟨he, trivial⟩
  | cons first rest ih =>
    have hrest : OpenBody names rest := fun e' h => hes e' (List.mem_cons_of_mem _ h)
    refine ⟨?_, ih hrest ?_⟩
    · have hne : (rest ++ [e]).isEmpty = false := by cases rest <;> rfl
      show Fits names (if (rest ++ [e]).isEmpty = true then place else .statement) first
      rw [hne]
      exact hes first List.mem_cons_self
    · split <;> exact he

/-- Statements that may be followed by more may also be all that a block holds. -/
theorem OpenBody.fitBody_self {es : List Expr} (hes : OpenBody names es) :
    FitBody names .statement es := by
  rcases List.eq_nil_or_concat es with rfl | ⟨front, e, rfl⟩
  · trivial
  · rw [List.concat_eq_append] at hes ⊢
    have he : e.Fits names .statement := hes e (by simp)
    refine OpenBody.fitBody (fun e' h => hes e' (List.mem_append_left _ h)) ?_
    split
    · exact he
    · exact he.ending

end Expr

/-! ## What the rules of the grammar build -/

namespace Grammar

open ExprLang.Parser ExprLang.Expr

variable {words : String → Prop} {last : Location}

/-- Tokens whose identifiers are all `words`. -/
def Spelt (words : String → Prop) (ts : List Token) : Prop :=
  ∀ t ∈ ts, t.kind = .identifier → words t.text

/-- The identifiers that the grammar takes for names. -/
def Nameable (words : String → Prop) (n : String) : Prop := words n ∧ n ∉ keywords

/-- A parser builds a tree that fits a place and leaves well spelt tokens. -/
def Builds (words : String → Prop) (last : Location) (place : Place) {c : Bool}
    (p : Parser c Expr) : Prop :=
  Ensures last (Spelt words) p fun e rest => e.Fits (Nameable words) place ∧ Spelt words rest

/-- The rules one level deeper build values. -/
structure Nested.Sound (words : String → Prop) (last : Location) (inner : Nested) : Prop where
  expression : Builds words last .value inner.expression
  operand : Builds words last .value inner.operand

/-- What holds of the names among some tokens holds of those behind the first one. -/
theorem Spelt.tail {t : Token} {ts : List Token} (h : Spelt words (t :: ts)) : Spelt words ts :=
  fun t' ht' => h t' (List.mem_cons_of_mem _ ht')

/-- Taking a token leaves well spelt tokens. -/
theorem take_spelt {accepts : Token → Bool} {refusal : Token → ParseError} :
    Ensures last (Spelt words) (take accepts refusal) fun t rest =>
      accepts t = true ∧ Spelt words rest :=
  ensures_take fun _ _ hts haccepts => ⟨haccepts, hts.tail⟩

/-- A look changes nothing about the spelling. -/
theorem look_spelt {α : Type} {c : Bool} {k : Token → Parser c α} {post : α → List Token → Prop}
    (hk : ∀ t, Ensures last (Spelt words) (k t) post) : Ensures last (Spelt words) (look k) post :=
  ensures_look fun t => (hk t).mono (fun _ h => h.1) fun _ _ h => h

/-- A pair of parsers of which the second does not care what the first one took. -/
theorem then_spelt {α β : Type} {c d : Bool} {p : Parser c α} {k : α → Parser d β}
    {fact : α → Prop} {post : β → List Token → Prop}
    (hp : Ensures last (Spelt words) p fun a rest => fact a ∧ Spelt words rest)
    (hk : ∀ a, fact a → Ensures last (Spelt words) (k a) post) :
    Ensures last (Spelt words) (p.bind k) post :=
  ensures_bind hp fun a ts ⟨ha, hts⟩ => hk a ha ts hts

/-- An integer literal is a value. -/
theorem builds_integer : Builds words last .value integer :=
  then_spelt take_spelt fun t _ => by
    rcases Decimal.readInt64? t.text with _ | n
    · exact ensures_fail
    · exact ensures_pure fun _ hts => ⟨trivial, hts⟩

/-- A truth value is a value. -/
theorem builds_boolean : Builds words last .value boolean :=
  ensures_map (take_spelt.mono (fun _ h => h) fun _ _ h => ⟨trivial, h.2⟩)

/-- A name is spelt as the tokens spell their names, and it is no keyword. -/
theorem name_spelt :
    Ensures last (Spelt words) name fun t rest => Nameable words t.text ∧ Spelt words rest := by
  refine ensures_take fun t rest hts haccepts => ⟨?_, hts.tail⟩
  simp only [Bool.and_eq_true, decide_eq_true_eq, Bool.not_eq_true', List.contains_eq_mem,
    decide_eq_false_iff_not] at haccepts
  exact ⟨hts t List.mem_cons_self haccepts.1, haccepts.2⟩

section Rules

variable {inner : Nested} (hinner : inner.Sound words last)

include hinner

/-- Between the parentheses of a call stand values. -/
theorem arguments_spelt :
    Ensures last (Spelt words) (arguments inner) fun es rest =>
      FitAll (Nameable words) es ∧ Spelt words rest := by
  refine look_spelt fun t => ensures_ite (fun _ => ensures_pure fun _ hts => ⟨trivial, hts⟩) ?_
  intro _
  refine ensures_relax (then_spelt hinner.expression fun first hfirst => ?_)
  refine (ensures_loop (I := fun es rest => FitAll (Nameable words) es ∧ Spelt words rest)
    (fun es => ?_) [first]).mono (fun ts hts => ⟨⟨hfirst, trivial⟩, hts⟩) fun es rest h => h.1
  rintro ts ⟨⟨hes, hts⟩, -⟩
  exact then_spelt take_spelt (fun comma _ => ensures_map (hinner.expression.mono (fun _ h => h)
    fun e rest h => ⟨fitAll_append hes h.1, h.2⟩)) ts hts

/-- What is called is a name, with values for arguments. -/
theorem builds_nameOrCall : Builds words last .value (nameOrCall inner) := by
  refine then_spelt name_spelt fun t ht => look_spelt fun next => ensures_ite (fun _ => ?_) ?_
  · refine ensures_relax (then_spelt take_spelt fun opening _ => ?_)
    refine then_spelt (arguments_spelt hinner) fun es hes => ensures_map ?_
    exact take_spelt.mono (fun _ h => h) fun _ _ h => ⟨⟨rfl, ht, hes⟩, h.2⟩
  · exact fun _ => ensures_pure fun _ hts => ⟨by simpa only [Fits] using ht, hts⟩

/-- Parentheses leave no trace in the tree: what they hold is a value. -/
theorem builds_parenthesized : Builds words last .value (parenthesized inner) :=
  then_spelt take_spelt fun _ _ => then_spelt hinner.expression fun _ he =>
    ensures_map (take_spelt.mono (fun _ h => h) fun _ _ h => ⟨he, h.2⟩)

/-- The condition and the branches of a conditional are values. -/
theorem builds_conditional : Builds words last .value (conditional inner) := by
  refine then_spelt take_spelt fun opening _ => then_spelt hinner.expression fun condition hc => ?_
  refine then_spelt take_spelt fun _ _ => then_spelt hinner.expression fun thenBranch ht => ?_
  refine look_spelt fun t => ensures_ite (fun _ => ?_) fun _ => ?_
  · refine ensures_relax (then_spelt take_spelt fun _ _ => ensures_map ?_)
    exact hinner.expression.mono (fun _ h => h) fun elseBranch rest h =>
      ⟨⟨hc, ht, h.1⟩, h.2⟩
  · exact ensures_pure fun _ hts => ⟨⟨hc, ht⟩, hts⟩

/-! ### Blocks -/

/-- A declaration is a statement, whose initializer is a value. -/
theorem builds_declaration : Builds words last .statement (declaration inner) := by
  refine then_spelt take_spelt fun opening _ => then_spelt name_spelt fun t ht => ?_
  refine then_spelt take_spelt fun _ _ => ensures_map ?_
  exact hinner.expression.mono (fun _ h => h) fun value rest h =>
    ⟨⟨by decide, ht, h.1⟩, h.2⟩

/-- A statement is a declaration or a value. -/
theorem builds_statement : Builds words last .statement (statement inner) := by
  refine look_spelt fun t => ensures_ite (fun _ => builds_declaration hinner) fun _ => ?_
  exact hinner.expression.mono (fun _ h => h) fun _ _ h => ⟨h.1.statement, h.2⟩

omit hinner in
/-- Between two statements the list is open; once it has its unit literal the brace follows. -/
theorem separator_spelt {earlier : List Expr} {e : Expr}
    (hearlier : OpenBody (Nameable words) earlier) (he : e.Fits (Nameable words) .statement) :
    Ensures last (Spelt words) (separator earlier e) fun es rest =>
      (OpenBody (Nameable words) es ∨
        FitBody (Nameable words) .statement es ∧ (current last rest).is "\x7d" = true) ∧
      Spelt words rest := by
  have hopen := hearlier.append he
  have hpure : Ensures last (Spelt words) (pure (earlier ++ [e])) fun es rest =>
      (OpenBody (Nameable words) es ∨
        FitBody (Nameable words) .statement es ∧ (current last rest).is "\x7d" = true) ∧
      Spelt words rest := ensures_pure fun _ hts => ⟨.inl hopen, hts⟩
  refine look_spelt fun t => ensures_ite (fun _ => ?_) fun _ => ensures_ite (fun _ => hpure)
    fun _ => ensures_ite (fun _ => ensures_fail) fun _ => ensures_ite (fun _ => hpure)
    fun _ => ensures_fail
  refine ensures_relax (then_spelt take_spelt fun semicolon _ => ensures_look fun next => ?_)
  refine ensures_pure fun ts ⟨hts, hnext⟩ => ⟨?_, hts⟩
  split
  · rename_i hclosing
    refine .inr ⟨?_, by rw [hnext]; exact hclosing⟩
    have happend : earlier ++ [e, .unit semicolon.location]
        = (earlier ++ [e]) ++ [.unit semicolon.location] := by simp
    rw [happend]
    refine hopen.fitBody ?_
    have hne : (earlier ++ [e]).isEmpty = false := by cases earlier <;> rfl
    simp only [hne, Fits, Bool.false_eq_true, if_false]
  · exact .inl hopen

/-- Only the last statement of a block can be a unit literal. -/
theorem builds_block : Builds words last .value (block inner) := by
  refine then_spelt take_spelt fun opening _ => ?_
  refine ensures_bind (M := fun es rest => FitBody (Nameable words) .statement es ∧
    Spelt words rest) ?_ fun es => ?_
  · refine (ensures_loop (I := fun es rest => (OpenBody (Nameable words) es ∨
        FitBody (Nameable words) .statement es ∧ (current last rest).is "\x7d" = true) ∧
      Spelt words rest) (fun es => ?_) []).mono
      (fun ts hts => ⟨.inl fun e h => by simp at h, hts⟩) fun es rest h => ?_
    · -- a round starts only in front of a token that is no closing brace
      rintro ts ⟨⟨hes, hts⟩, htest⟩
      rcases hes with hopen | ⟨-, hclosing⟩
      · exact then_spelt (builds_statement hinner) (fun e he => separator_spelt hopen he) ts hts
      · simp [hclosing] at htest
    · rcases h.1.1 with hopen | hclosed
      · exact ⟨hopen.fitBody_self, h.1.2⟩
      · exact ⟨hclosed.1, h.1.2⟩
  · rintro ts ⟨hes, hts⟩
    exact ensures_map (take_spelt.mono (fun _ h => h)
      fun _ _ h => ⟨by simpa only [Fits] using hes, h.2⟩) ts hts

/-! ### Operators -/

/-- Each of the atoms is a value. -/
theorem builds_atom : Builds words last .value (atom inner) := by
  refine look_spelt fun t => ?_
  rcases t.kind <;> simp only
  · exact ensures_ite (fun _ => builds_conditional hinner) fun _ =>
      ensures_ite (fun _ => ensures_fail) fun _ => builds_nameOrCall hinner
  · exact builds_integer
  · exact builds_boolean
  · exact ensures_fail
  · exact ensures_ite (fun _ => builds_parenthesized hinner) fun _ =>
      ensures_ite (fun _ => builds_block hinner) fun _ => ensures_fail
  · exact ensures_fail

omit hinner in
theorem mem_of_isAny {t : Token} {texts : List String} (h : t.isAny texts = true) :
    t.text ∈ texts := by
  simp only [Token.isAny, Token.is, List.any_eq_true, Bool.and_eq_true, decide_eq_true_eq] at h
  obtain ⟨text, hmem, -, heq⟩ := h
  exact heq ▸ hmem

/-- The operator of a unary expression is one of the table, in front of a value. -/
theorem builds_unary : Builds words last .value (unary inner) := by
  refine look_spelt fun t => ensures_ite (fun _ => ?_) fun _ => builds_atom hinner
  refine then_spelt take_spelt fun op hop => ensures_map ?_
  exact hinner.operand.mono (fun _ h => h) fun e rest h =>
    ⟨⟨mem_of_isAny hop, h.1⟩, h.2⟩

omit hinner in
/-- Operators of the table join values to values. -/
theorem builds_chain {operators : List String} {operand : Parser true Expr}
    (hoperators : ∀ op ∈ operators, op ∈ binaryLevels.flatten)
    (hoperand : Builds words last .value operand) :
    Builds words last .value (chain operators operand) := by
  refine then_spelt hoperand fun first hfirst => ?_
  refine (ensures_loop (I := fun e rest => e.Fits (Nameable words) .value ∧ Spelt words rest)
    (fun left => ?_) first).mono (fun ts hts => ⟨hfirst, hts⟩) fun e rest h => h.1
  rintro ts ⟨⟨hleft, hts⟩, -⟩
  refine then_spelt take_spelt (fun op hop => ensures_map ?_) ts hts
  exact hoperand.mono (fun _ h => h) fun right rest h =>
    ⟨⟨.inr (hoperators _ (mem_of_isAny hop)), hleft, h.1⟩, h.2⟩

/-- The operators of a binary expression are those of the levels, between values. -/
theorem builds_binary : Builds words last .value (binary inner) := by
  have hlevels : ∀ levels : List (List String), (∀ level ∈ levels, level ∈ binaryLevels) →
      Builds words last .value (levels.foldr chain (unary inner)) := by
    intro levels
    induction levels with
    | nil => exact fun _ => builds_unary hinner
    | cons level rest ih =>
      intro hmem
      refine builds_chain (fun op hop => ?_) (ih fun l hl => hmem l (List.mem_cons_of_mem _ hl))
      exact List.mem_flatten_of_mem (hmem level List.mem_cons_self) hop
  exact hlevels binaryLevels fun _ h => h

/-- An assignment has a name on its left and a value on its right. -/
theorem builds_assignment : Builds words last .value (assignment inner) := by
  refine then_spelt (builds_binary hinner) fun target htarget => look_spelt fun t => ?_
  refine ensures_ite (fun _ => ?_) fun _ => ensures_pure fun _ hts => ⟨htarget, hts⟩
  split
  · refine ensures_relax (ensures_bind (M := fun op rest => op.text = "=" ∧ Spelt words rest)
      (take_spelt.mono (fun _ h => h) fun op rest h => ⟨?_, h.2⟩) fun op => ?_)
    · simpa [Token.is] using And.right (by simpa [Token.is] using h.1)
    · rintro ts ⟨hop, hts⟩
      refine ensures_map (hinner.expression.mono (fun _ h => h) fun value rest h => ?_) ts hts
      exact ⟨by simp only [Fits] at htarget ⊢; exact ⟨.inl ⟨hop, rfl⟩, htarget, h.1⟩, h.2⟩
  · exact ensures_fail

end Rules

/-! ## Whole programs -/

/-- However many levels are left, the rules build values. -/
theorem nested_sound (n : Nat) : (nested n).Sound words last := by
  induction n with
  | zero =>
    have hdeep : Builds words last .value tooDeep := look_spelt fun _ => ensures_fail
    exact ⟨hdeep, hdeep⟩
  | succ n ih => exact ⟨builds_assignment ih, builds_unary ih⟩

/-- A program is its first expression, with nothing behind it. -/
theorem run_of_parse {tokens : List Token} {e : Expr} (h : parse tokens = .ok (some e)) :
    ∃ rest, (nested maxDepth).expression.run (endLocation tokens) tokens = .ok (e, rest) ∧
      (current (endLocation tokens) rest).kind = .endOfInput := by
  unfold parse at h
  split at h
  · simp at h
  · split at h
    · contradiction
    · split at h
      · contradiction
      · rename_i e' rest hrun
        simp only at h
        split at h
        · rename_i hend
          simp only [Except.ok.injEq, Option.some.injEq] at h
          exact ⟨rest, h ▸ hrun, hend⟩
        · contradiction

/-- A parsed program fits the place of a value, whatever tokens it was parsed from. -/
theorem fits_of_parse {tokens : List Token} {e : Expr} (hspelt : Spelt words tokens)
    (h : parse tokens = .ok (some e)) : e.Fits (Nameable words) .value := by
  obtain ⟨rest, hrun, -⟩ := run_of_parse h
  exact ((nested_sound maxDepth).expression _ hspelt _ _ hrun).1

/-- Whatever the tokens spell may be a name. -/
theorem fits_of_parse_any {tokens : List Token} {e : Expr} (h : parse tokens = .ok (some e)) :
    e.Fits (Nameable fun _ => True) .value := fits_of_parse (fun _ _ _ => trivial) h

end Grammar
end ExprLang
