/-
  PARSED LAYOUT: the parser loses, invents and reorders no token.

  `Uses last pre p post` says which tokens `p` takes when it succeeds: they are the front of the
  tokens that it was handed, and `post` holds of its result, of them, and of the tokens behind.
  There is one rule for each combinator, and one lemma for each rule of the grammar, against the
  pair of rules one level deeper.  Every expression lays out the tokens that were taken for it.

  The loop of a block needs to know what stands behind a statement.  Its invariant speaks of the
  next token: in front of the closing brace the statements are complete, with their unit literal if
  there is one, and in front of any other token one more may follow.
-/
import Mathlib
import ExprLang.Proofs.Layout
import ExprLang.Proofs.ParserLogic

namespace ExprLang

/-! ## Tokens of a text -/

/-- Whether the spelling of a token goes with its kind. -/
structure Token.WellSpelt (t : Token) : Prop where
  identifier : t.kind = .identifier → isWord t.text = true
  integer : t.kind = .integer → t.text.toList ≠ [] ∧ t.text.toList.all Char.isDigit = true
  boolean : t.kind = .boolean → t.text ∈ booleanWords
  real : t.kind ≠ .endOfInput

/-- A word is one of the four Boolean literals or an identifier. -/
theorem wordKind_cases (word : String) :
    wordKind word = .boolean ∧ word ∈ booleanWords ∨ wordKind word = .identifier := by
  rw [wordKind]
  split
  · rename_i hliteral
    exact .inl ⟨rfl, by simpa using hliteral⟩
  · exact .inr rfl

/-- What the lexer reads as a token is spelled as its kind says. -/
theorem wellSpelt_of_scan {front spelling rest : List Char} {kind : TokenKind}
    (h : scan front = .token kind spelling rest) (loc : Location) :
    (Token.mk kind (String.ofList spelling) loc).WellSpelt := by
  have hword (hkind : kind = .identifier) : isWord (String.ofList spelling) = true :=
    isWord_of_scan (hkind ▸ h)
  revert h
  fun_cases scan front <;> intro h <;> try contradiction
  all_goals
    simp only [Scan.token.injEq] at h
    obtain ⟨rfl, rfl, -⟩ := h
  · -- a word
    rename_i c rest' _ _ _ _
    rcases wordKind_cases (String.ofList (c :: rest'.takeWhile isWordRest)) with
      ⟨hkind, hmem⟩ | hkind
    · exact ⟨hword, fun h => absurd (hkind.symm.trans h) (by decide), fun _ => hmem,
        fun h => absurd (hkind.symm.trans h) (by decide)⟩
    · exact ⟨hword, fun h => absurd (hkind.symm.trans h) (by decide),
        fun h => absurd (hkind.symm.trans h) (by decide),
        fun h => absurd (hkind.symm.trans h) (by decide)⟩
  · -- an integer
    rename_i c rest' _ _ _ _ hdigit
    have hdigits : (c :: rest'.takeWhile Char.isDigit).all Char.isDigit = true := by
      simp only [List.all_cons, hdigit, List.all_takeWhile, Bool.and_self]
    exact ⟨hword, fun _ => by simpa only [String.toList_ofList] using ⟨by simp, hdigits⟩,
      by simp, by simp⟩
  · exact ⟨hword, by simp, by simp, by simp⟩
  · exact ⟨hword, by simp, by simp, by simp⟩
  · exact ⟨hword, by simp, by simp, by simp⟩

/-- The lexer only makes tokens of the kind that their text has. -/
theorem wellSpelt_of_tokenize {source : String} {tokens : List Token}
    (h : tokenize source = .ok tokens) : ∀ t ∈ tokens, t.WellSpelt := by
  intro t ht
  obtain ⟨front, rest, hscan⟩ := scanned_of_tokenizeFrom h ht
  simpa only [String.ofList_toList] using wellSpelt_of_scan hscan t.location

/-! ## What the rules of the grammar take -/

namespace Grammar

open ExprLang.Parser

variable {last : Location}

/-- A parser takes well spelt tokens, with these for its result. -/
def Takes {α : Type} {c : Bool} (last : Location) (p : Parser c α)
    (L : α → List Token → Prop) : Prop :=
  Uses last Token.WellSpelt (fun _ => True) p fun a used _ => L a used

/-- The rules one level deeper lay out what they take. -/
structure Nested.Lays (last : Location) (inner : Nested) : Prop where
  expression : Takes last inner.expression Laid
  operand : Takes last inner.operand Laid

/-- One parser behind another, where the second does not care what stands in front of it. -/
theorem Takes.bind {α β : Type} {c d : Bool} {p : Parser c α} {k : α → Parser d β}
    {F : α → List Token → Prop} {L : β → List Token → Prop} (hp : Takes last p F)
    (hk : ∀ a ts, F a ts → Takes last (k a) fun b us => L b (ts ++ us)) :
    Takes last (p.bind k) L :=
  uses_bind hp fun a used => fun ts hfirst hwell => hk a used hfirst ts trivial hwell

/-- A tree that is built from the result is laid out as the result is. -/
theorem Takes.map {α β : Type} {c : Bool} {p : Parser c α} {f : α → β}
    {L : β → List Token → Prop} (hp : Takes last p fun a ts => L (f a) ts) :
    Takes last (p.map f) L := uses_map hp

/-- The layout may be said less precisely. -/
theorem Takes.mono {α : Type} {c : Bool} {p : Parser c α} {L L' : α → List Token → Prop}
    (hp : Takes last p L) (h : ∀ a ts, L a ts → L' a ts) : Takes last p L' :=
  Uses.mono hp (fun _ h => h) fun a used _ => h a used

/-- A parser that takes nothing lays out nothing. -/
theorem takes_pure {α : Type} {a : α} {L : α → List Token → Prop} (h : L a []) :
    Takes last (pure a) L := uses_pure fun _ _ => h

/-- Looking ahead takes nothing. -/
theorem takes_look {α : Type} {c : Bool} {k : Token → Parser c α} {L : α → List Token → Prop}
    (hk : ∀ t, Takes last (k t) L) : Takes last (look k) L :=
  uses_look fun t => Uses.mono (hk t) (fun _ _ => trivial) fun _ _ _ h => h

/-- Taking one token lays out this one. -/
theorem takes_take {accepts : Token → Bool} {refusal : Token → ParseError} :
    Takes last (take accepts refusal) fun t ts => ts = [t] ∧ accepts t = true ∧ t.WellSpelt :=
  uses_take fun _ _ haccepts hwell => ⟨rfl, haccepts, hwell⟩

/-- An acceptable token, and what stands behind it. -/
theorem takes_take_bind {β : Type} {d : Bool} {accepts : Token → Bool}
    {refusal : Token → ParseError} {k : Token → Parser d β} {L : β → List Token → Prop}
    (hk : ∀ t, accepts t = true → t.WellSpelt → Takes last (k t) fun b us => L b (t :: us)) :
    Takes last ((take accepts refusal).bind k) L :=
  takes_take.bind fun t ts ⟨hts, haccepts, hwell⟩ => by
    subst hts
    exact hk t haccepts hwell

/-- A fixed spelling stands in front of what is laid out behind it. -/
theorem takes_token_bind {β : Type} {d : Bool} {text : String} {k : Token → Parser d β}
    {L : β → List Token → Prop}
    (hk : ∀ t, t.is text = true → Takes last (k t) fun b us => L b (t :: us)) :
    Takes last ((token text).bind k) L := takes_take_bind fun t ht _ => hk t ht

/-- So does a name. -/
theorem takes_name_bind {β : Type} {d : Bool} {k : Token → Parser d β}
    {L : β → List Token → Prop}
    (hk : ∀ t, t.IsName → Takes last (k t) fun b us => L b (t :: us)) :
    Takes last (name.bind k) L := by
  refine takes_take_bind fun t haccepts hwell => hk t ?_
  simp only [Bool.and_eq_true, decide_eq_true_eq, Bool.not_eq_true', List.contains_eq_mem,
    decide_eq_false_iff_not] at haccepts
  exact ⟨haccepts.1, hwell.identifier haccepts.1, haccepts.2⟩

/-! ### Literals -/

/-- The token of a literal spells its value. -/
theorem takes_integer : Takes last integer Laid := by
  refine takes_take_bind fun t haccepts hwell => ?_
  have hkind : t.kind = .integer := by simpa using haccepts
  rcases hread : Decimal.readInt64? t.text with _ | n
  · exact uses_fail
  · obtain ⟨hne, hdigits⟩ := hwell.integer hkind
    exact takes_pure (.int hkind ⟨hne, hdigits, (readInt64_eq_some_iff hne hdigits).1 hread⟩)

/-- The token of a Boolean literal spells its value, in lower case or not. -/
theorem takes_boolean : Takes last boolean Laid := by
  refine Takes.map (takes_take.mono fun t ts ⟨hts, haccepts, hwell⟩ => ?_)
  subst hts
  have hkind : t.kind = .boolean := by simpa using haccepts
  refine .bool hkind ?_
  have hmem := hwell.boolean hkind
  simp only [booleanWords, List.mem_cons, List.not_mem_nil, or_false] at hmem
  rcases hmem with h | h | h | h <;> simp [h, Word.Spells]

section Rules

variable {inner : Nested} (hinner : inner.Lays last)

include hinner

/-! ### Calls, parentheses and conditionals -/

/-- Arguments are laid out with commas between them; the loop has laid out those that came so
    far. -/
theorem takes_arguments : Takes last (arguments inner) LaidArguments := by
  refine takes_look fun t => uses_ite (fun _ => takes_pure .none) fun _ => uses_relax ?_
  refine hinner.expression.bind fun first ts hfirst => ?_
  refine (uses_loop (I := fun es used _ => es ≠ [] ∧ LaidArguments es (ts ++ used))
    (fun es used => ?_) [first]).mono (fun _ _ => ?_) fun es used rest h => h.1.2
  · rintro us ⟨⟨hne, hes⟩, -⟩ hwell
    refine takes_token_bind (L := fun es us => es ≠ [] ∧ LaidArguments es (ts ++ (used ++ us)))
      (fun comma hcomma => Takes.map (hinner.expression.mono fun e vs he => ?_)) us trivial hwell
    refine ⟨by simp, ?_⟩
    rw [← List.append_assoc]
    exact .further hes hne hcomma he
  · rw [List.append_nil]
    exact ⟨by simp, .first hfirst⟩

/-- A name stands for itself, and a call has its arguments in parentheses behind the name. -/
theorem takes_nameOrCall : Takes last (nameOrCall inner) Laid := by
  refine takes_name_bind fun f hf => takes_look fun next => uses_ite (fun _ => ?_)
    fun _ => takes_pure (.name hf)
  refine uses_relax (takes_token_bind fun opening hopening => ?_)
  refine (takes_arguments hinner).bind fun es ts hes => Takes.map (takes_take.mono ?_)
  rintro closing us ⟨rfl, hclosing, -⟩
  exact .call hf hopening hes hclosing

/-- Parentheses may be put around whatever is laid out. -/
theorem takes_parenthesized : Takes last (parenthesized inner) Laid := by
  refine takes_token_bind fun opening hopening => hinner.expression.bind fun e ts he => ?_
  refine Takes.map (takes_take.mono ?_)
  rintro closing us ⟨rfl, hclosing, -⟩
  exact .parenthesized hopening he hclosing

/-- The words of a conditional stand in front of its parts. -/
theorem takes_conditional : Takes last (conditional inner) Laid := by
  refine takes_token_bind fun opening hopening => ?_
  refine hinner.expression.bind fun condition ts hcondition => ?_
  refine takes_token_bind fun thenWord hthenWord => ?_
  refine hinner.expression.bind fun thenBranch us hthen => takes_look fun t => ?_
  refine uses_ite (fun _ => ?_) fun _ => takes_pure ?_
  · refine uses_relax (takes_token_bind fun elseWord helseWord => Takes.map ?_)
    refine hinner.expression.mono fun elseBranch vs helse => ?_
    have hlaid := Laid.ifElse hopening hcondition hthenWord hthen helseWord helse
    simpa only [List.cons_append, List.append_assoc] using hlaid
  · simpa only [List.cons_append, List.append_nil] using
      Laid.ifThen hopening hcondition hthenWord hthen

/-! ### Blocks -/

/-- A statement is a declaration or an expression. -/
theorem takes_statement : Takes last (statement inner) LaidStatement := by
  refine takes_look fun t => uses_ite (fun _ => ?_) fun _ =>
    hinner.expression.mono fun _ _ he => .expression he
  refine takes_token_bind fun opening hopening => takes_name_bind fun t ht => ?_
  refine takes_token_bind fun sign hsign => Takes.map ?_
  exact hinner.expression.mono fun value ts hvalue => .declaration hopening ht hsign hvalue

omit hinner in
/-- What the tokens of a block have made of it so far: all of it in front of the closing brace,
    and statements that another one may follow in front of anything else. -/
def LaidSoFar (last : Location) (es : List Expr) (used rest : List Token) : Prop :=
  if (current last rest).is "\x7d" = true then LaidBody es used else LaidOpen es used

omit hinner in
/-- What stands behind a statement settles how the statements so far are laid out: with a semicolon,
    at the end of the block, or without one behind a compound statement. -/
theorem uses_separator {earlier : List Expr} {e : Expr} {ts us : List Token}
    (hearlier : LaidOpen earlier ts) (he : LaidStatement e us) :
    Uses last Token.WellSpelt (fun _ => True) (separator earlier e)
      fun es used rest => LaidSoFar last es (ts ++ (us ++ used)) rest := by
  have hlast : LaidBody (earlier ++ [e]) (ts ++ (us ++ [])) := by
    rw [List.append_nil]
    exact .last hearlier he
  refine uses_look fun t => uses_ite (fun _ => ?_) fun _ =>
    uses_ite (fun hbrace => ?_) fun hbrace => uses_ite (fun _ => uses_fail) fun _ =>
      uses_ite (fun hcompound => ?_) fun _ => uses_fail
  · -- a semicolon, and a unit literal if nothing follows
    refine uses_relax (uses_bind (M := fun t used _ => used = [t] ∧ t.is ";" = true)
      (uses_take fun _ _ ht _ => ⟨rfl, ht⟩) fun semicolon used => uses_look fun next => ?_)
    refine uses_pure fun rest ⟨⟨hused, hsemicolon⟩, hnext⟩ => ?_
    subst hused
    rw [LaidSoFar, hnext, List.append_nil, ← List.append_assoc]
    split
    · exact .closed hearlier he hsemicolon
    · exact .semicolon hearlier he hsemicolon
  · refine uses_pure fun rest ⟨_, hnext⟩ => ?_
    rw [LaidSoFar, hnext, if_pos hbrace]
    exact hlast
  · refine uses_pure fun rest ⟨_, hnext⟩ => ?_
    rw [LaidSoFar, hnext, if_neg hbrace, List.append_nil]
    exact .compound hearlier he hcompound

/-- Between the braces stands what the statements so far are laid out as. -/
theorem takes_block : Takes last (block inner) Laid := by
  refine takes_token_bind fun opening hopening => ?_
  refine Takes.bind (F := LaidBody) ?_ fun statements ts hbody => Takes.map (takes_take.mono ?_)
  · refine (uses_loop (I := LaidSoFar last) (fun earlier used => ?_) []).mono (fun ts _ => ?_)
      fun statements used rest ⟨hbody, htest⟩ => ?_
    · refine uses_bind (M := fun e us _ => LaidOpen earlier used ∧ LaidStatement e us)
        (fun ts ⟨hearlier, htest⟩ hwell => ?_) fun e us => ?_
      · -- a round starts only in front of a token that is no closing brace
        have hopen : LaidOpen earlier used := by
          rwa [LaidSoFar, if_neg (by simpa using htest)] at hearlier
        exact (takes_statement hinner).mono (fun e us he => ⟨hopen, he⟩) ts trivial hwell
      · rintro ts ⟨hopen, he⟩ hwell
        exact uses_separator hopen he ts trivial hwell
    · rw [LaidSoFar]
      split
      · exact .none
      · exact .none
    · rwa [LaidSoFar, if_pos (by simpa using htest)] at hbody
  · rintro closing us ⟨rfl, hclosing, -⟩
    exact .block hopening hbody hclosing (endsInUnit_iff hbody)

/-! ### Operators -/

/-- An operand is laid out by the rule that its first token chooses. -/
theorem takes_atom : Takes last (atom inner) Laid := by
  refine takes_look fun t => ?_
  rcases t.kind <;> simp only
  · exact uses_ite (fun _ => takes_conditional hinner) fun _ =>
      uses_ite (fun _ => uses_fail) fun _ => takes_nameOrCall hinner
  · exact takes_integer
  · exact takes_boolean
  · exact uses_fail
  · exact uses_ite (fun _ => takes_parenthesized hinner) fun _ =>
      uses_ite (fun _ => takes_block hinner) fun _ => uses_fail
  · exact uses_fail

/-- The sign stands in front of its operand. -/
theorem takes_unary : Takes last (unary inner) Laid := by
  refine takes_look fun t => uses_ite (fun _ => ?_) fun _ => takes_atom hinner
  exact takes_take_bind fun op hop _ => Takes.map (hinner.operand.mono fun e ts he => .unary hop he)

omit hinner in
/-- One spelling out of several is one out of more. -/
theorem isAny_mono {t : Token} {texts texts' : List String} (h : t.isAny texts = true)
    (hsub : ∀ text ∈ texts, text ∈ texts') : t.isAny texts' = true := by
  rw [Token.isAny, List.any_eq_true] at h ⊢
  obtain ⟨text, hmem, ht⟩ := h
  exact ⟨text, hsub text hmem, ht⟩

omit hinner in
/-- Every operator of a level stands between its operands, and belongs to the language. -/
theorem takes_chain {operators : List String} {operand : Parser true Expr}
    (hoperators : ∀ op ∈ operators, op ∈ binaryLevels.flatten)
    (hoperand : Takes last operand Laid) : Takes last (chain operators operand) Laid := by
  refine hoperand.bind fun first ts hfirst => ?_
  refine (uses_loop (I := fun left used _ => Laid left (ts ++ used))
    (fun left used => ?_) first).mono (fun _ _ => by rwa [List.append_nil])
      fun e used rest h => h.1
  rintro us ⟨hleft, -⟩ hwell
  refine takes_take_bind (L := fun e us => Laid e (ts ++ (used ++ us)))
    (fun op hop _ => Takes.map (hoperand.mono fun right vs hright => ?_)) us trivial hwell
  rw [← List.append_assoc]
  exact .binary hleft (isAny_mono hop fun text hmem => .tail _ (hoperators text hmem)) hright

/-- All levels are chains. -/
theorem takes_binary : Takes last (binary inner) Laid := by
  have hlevels : ∀ operators ∈ binaryLevels, ∀ op ∈ operators, op ∈ binaryLevels.flatten :=
    fun operators hmem op hop => List.mem_flatten.2 ⟨operators, hmem, hop⟩
  unfold binary
  revert hlevels
  generalize hall : binaryLevels.flatten = all
  generalize binaryLevels = levels
  intro hlevels
  induction levels with
  | nil => exact takes_unary hinner
  | cons operators levels ih =>
    refine takes_chain (fun op hop => hall ▸ hlevels operators List.mem_cons_self op hop) (ih ?_)
    exact fun operators' hmem => hlevels operators' (List.mem_cons_of_mem _ hmem)

/-- The sign of an assignment stands between its variable and the value. -/
theorem takes_assignment : Takes last (assignment inner) Laid := by
  refine (takes_binary hinner).bind fun target ts htarget => takes_look fun t => ?_
  refine uses_ite (fun _ => ?_) fun _ => takes_pure (by rwa [List.append_nil])
  split
  · refine uses_relax (takes_token_bind fun sign hsign => Takes.map ?_)
    refine hinner.expression.mono fun value us hvalue => .binary htarget ?_ hvalue
    rw [Token.isAny, List.any_eq_true]
    exact ⟨"=", List.mem_cons_self, hsign⟩
  · exact uses_fail

end Rules

/-! ## Whole programs -/

/-- However many levels are left, the rules lay out what they take. -/
theorem nested_lays (n : Nat) : (nested n).Lays last := by
  induction n with
  | zero =>
    have hdeep : Takes last tooDeep Laid := takes_look fun _ => uses_fail
    exact ⟨hdeep, hdeep⟩
  | succ n ih => exact ⟨takes_assignment ih, takes_unary ih⟩

/-- A parsed program is laid out by all of its tokens. -/
theorem laid_of_parse {tokens : List Token} {tree : Expr} (hwell : ∀ t ∈ tokens, t.WellSpelt)
    (h : parse tokens = .ok (some tree)) : Laid tree tokens := by
  obtain ⟨left, hrun, hend⟩ := run_of_parse h
  obtain ⟨used, hused, hlaid⟩ := (nested_lays maxDepth).expression _ trivial hwell _ rfl _ _ hrun
  -- no token of a text is an end marker, so nothing is left
  cases left with
  | nil => rwa [hused, List.append_nil]
  | cons t left =>
    have ht : t ∈ tokens := hused ▸ List.mem_append_right _ List.mem_cons_self
    exact absurd hend (hwell t ht).real

end Grammar

/-- The tree of a source text says exactly its tokens, parentheses and semicolons left out, in
    their order; and the tokens lay it out, each node where its own token stands. -/
theorem says_of_tokenize {source : String} {tokens : List Token} {tree : Expr}
    (htokens : tokenize source = .ok tokens) (htree : Grammar.parse tokens = .ok (some tree)) :
    List.Forall₂ Word.Spells tree.words (spellings tokens) ∧ Laid tree tokens := by
  have hlaid := Grammar.laid_of_parse (wellSpelt_of_tokenize htokens) htree
  exact ⟨says_of_laid hlaid, hlaid⟩

/-- Parentheses that stand for nothing and a numeral with leading zeros. -/
theorem says_of_tokenize_conditional : ∃ tokens tree,
    tokenize "if (True) then f(007)" = .ok tokens ∧ Grammar.parse tokens = .ok (some tree) ∧
    List.Forall₂ Word.Spells [.text "if", .boolean true, .text "then", .text "f", .integer 7]
      ["if", "True", "then", "f", "007"] ∧ Laid tree tokens := by
  have htokens : tokenize "if (True) then f(007)" = .ok
      [⟨.identifier, "if", .known ⟨1, 1⟩⟩, ⟨.punctuation, "(", .known ⟨1, 4⟩⟩,
       ⟨.boolean, "True", .known ⟨1, 5⟩⟩, ⟨.punctuation, ")", .known ⟨1, 9⟩⟩,
       ⟨.identifier, "then", .known ⟨1, 11⟩⟩, ⟨.identifier, "f", .known ⟨1, 16⟩⟩,
       ⟨.punctuation, "(", .known ⟨1, 17⟩⟩, ⟨.integer, "007", .known ⟨1, 18⟩⟩,
       ⟨.punctuation, ")", .known ⟨1, 21⟩⟩] := by cbv
  have htree : Grammar.parse
      [⟨.identifier, "if", .known ⟨1, 1⟩⟩, ⟨.punctuation, "(", .known ⟨1, 4⟩⟩,
       ⟨.boolean, "True", .known ⟨1, 5⟩⟩, ⟨.punctuation, ")", .known ⟨1, 9⟩⟩,
       ⟨.identifier, "then", .known ⟨1, 11⟩⟩, ⟨.identifier, "f", .known ⟨1, 16⟩⟩,
       ⟨.punctuation, "(", .known ⟨1, 17⟩⟩, ⟨.integer, "007", .known ⟨1, 18⟩⟩,
       ⟨.punctuation, ")", .known ⟨1, 21⟩⟩] = .ok (some (.ifThen (.known ⟨1, 1⟩)
        (.bool (.known ⟨1, 5⟩) true)
        (.call (.known ⟨1, 16⟩) (.name (.known ⟨1, 16⟩) "f") [.int (.known ⟨1, 18⟩) 7]))) := by cbv
  exact ⟨_, _, htokens, htree, says_of_tokenize htokens htree⟩

end ExprLang
