/-
  PRINTING: a tree as words, with no more parentheses than it takes to read it back.

  An operand stands at some levels of the grammar, and `bare` says which trees can stand there as
  they are.  All others need parentheses: an operation of looser levels, and an assignment or a
  conditional, which take everything to their right.  For the same reason a then-branch in front
  of an `else` must not end in a conditional that lacks one (`endsOpen`).  More then-branches may
  be put in parentheses: `guard` says which.

  `nesting` counts the levels that reading the words takes.  Parentheses count as any other
  expression inside an expression.
-/
import ExprLang.Proofs.Layout

namespace ExprLang

/-! ## Tokens for words -/

/-- The brackets and separators of the grammar. -/
def punctuationMarks : List String := ["(", ")", "\x7b", "\x7d", ",", ";"]

/-- The operators that are no words. -/
def operatorSigns : List String :=
  ["=", "==", "!=", "<", "<=", ">", ">=", "+", "-", "*", "/", "%"]

/-- The kind of a token with a text of its own. -/
def textKind (text : String) : TokenKind :=
  if text ∈ punctuationMarks then .punctuation
  else if text ∈ operatorSigns then .operator
  else .identifier

/-- Whether a token is what the lexer makes of a word, wherever it stands. -/
def Word.Writes (w : Word) (t : Token) : Prop :=
  w.Spells t.text ∧
    t.kind = match w with
      | .text own => textKind own
      | .integer _ => .integer
      | .boolean _ => .boolean

/-- The token that writes a word in the usual spelling. -/
def Word.token (loc : Location) : Word → Token
  | .text own => ⟨textKind own, own, loc⟩
  | .integer n => ⟨.integer, Decimal.ofInt64 n, loc⟩
  | .boolean b => ⟨.boolean, if b then "true" else "false", loc⟩

/-- Whether a word has a spelling: a negative integer has none. -/
def Word.isUnsigned : Word → Bool
  | .integer n => 0 ≤ n.toInt
  | _ => true

/-- The usual spelling is one, where there is any. -/
theorem Word.writes_token {w : Word} (h : w.isUnsigned = true) (loc : Location) :
    w.Writes (w.token loc) := by
  cases w with
  | text own => exact ⟨rfl, rfl⟩
  | integer n =>
    refine ⟨?_, rfl⟩
    obtain ⟨k, hk⟩ := Int.eq_ofNat_of_zero_le (of_decide_eq_true h)
    have hdigits : (Decimal.ofInt64 n).toList = Nat.toDigits 10 k := by
      rw [Decimal.ofInt64, hk]
      simp [Decimal.ofInt]
    simp only [Word.Spells, Word.token, hdigits, hk]
    refine ⟨Nat.toDigits_ne_nil, List.all_eq_true.2 fun c hc => ?_, ?_⟩
    · exact Nat.isDigit_of_mem_toDigits (by decide) (by decide) hc
    · rw [Nat.ofDigitChars_toDigits (by decide) (by decide)]
  | boolean b => cases b <;> exact ⟨.inr rfl, rfl⟩

/-- Whether a text has the shape of a name. -/
def isNameShaped (text : String) : Bool :=
  match text.toList with
  | [] => false
  | c :: rest => isWordStart c && rest.all isWordRest

/-- Whether a text has the shape of a name and is no keyword. -/
def PlainName (n : String) : Prop := isNameShaped n = true ∧ n ∉ keywords

instance (n : String) : Decidable (PlainName n) := inferInstanceAs (Decidable (_ ∧ _))

namespace Expr

/-! ## Trees without locations -/

mutual

/-- A tree without its locations. -/
def unlocated : Expr → Expr
  | .int _ n => .int .synthetic n
  | .bool _ b => .bool .synthetic b
  | .unit _ => .unit .synthetic
  | .name _ n => .name .synthetic n
  | .unary _ op operand => .unary .synthetic op operand.unlocated
  | .binary _ op left right => .binary .synthetic op left.unlocated right.unlocated
  | .ifThen _ condition thenBranch =>
    .ifThen .synthetic condition.unlocated thenBranch.unlocated
  | .ifElse _ condition thenBranch elseBranch =>
    .ifElse .synthetic condition.unlocated thenBranch.unlocated elseBranch.unlocated
  | .call _ function arguments => .call .synthetic function.unlocated (allUnlocated arguments)
  | .var _ n value => .var .synthetic n value.unlocated
  | .block _ statements => .block .synthetic (allUnlocated statements)

/-- Some trees without their locations. -/
def allUnlocated : List Expr → List Expr
  | [] => []
  | e :: rest => e.unlocated :: allUnlocated rest

end

/-- Locations are taken away tree by tree. -/
theorem allUnlocated_append (es fs : List Expr) :
    allUnlocated (es ++ fs) = allUnlocated es ++ allUnlocated fs := by
  induction es with
  | nil => rfl
  | cons e es ih => simp [allUnlocated, ih]

/-! ## Parentheses -/

/-- The levels of the operators that bind at least as tightly as one. -/
def levelsOf (op : String) : List (List String) :=
  Grammar.binaryLevels.dropWhile fun operators => !operators.contains op

/-- Whether a tree can stand as it is where operators of these levels are read, and no others. -/
def bare (levels : List (List String)) : Expr → Bool
  | .binary _ op _ _ => levels.flatten.contains op
  | .ifThen _ _ _ => false
  | .ifElse _ _ _ _ => false
  | _ => true

/-- Whether the words of a tree end in a conditional that takes an `else` behind it. -/
def endsOpen : Expr → Bool
  | .ifThen _ _ _ => true
  | .ifElse _ _ _ elseBranch => elseBranch.endsOpen
  | .binary _ op _ right => op = "=" && right.endsOpen
  | _ => false

/-- Words in parentheses, or as they are. -/
def enclose (needed : Bool) (ws : List Word) : List Word :=
  if needed then .text "(" :: ws ++ [.text ")"] else ws

variable (guard : Expr → Bool)

mutual

/-- The words of a tree from left to right, with parentheses. -/
def printed : Expr → List Word
  | .int _ n => [.integer n]
  | .bool _ b => [.boolean b]
  | .unit _ => []
  | .name _ n => [.text n]
  | .unary _ op operand => .text op :: enclose (!bare [] operand) operand.printed
  | .binary _ op left right =>
    if op = "=" then left.printed ++ .text op :: right.printed
    else
      enclose (!bare (levelsOf op) left) left.printed
        ++ .text op :: enclose (!bare (levelsOf op).tail right) right.printed
  | .ifThen _ condition thenBranch =>
    .text "if" :: condition.printed ++ .text "then" :: thenBranch.printed
  | .ifElse _ condition thenBranch elseBranch =>
    .text "if" :: condition.printed
      ++ .text "then" :: enclose (guard thenBranch) thenBranch.printed
      ++ .text "else" :: elseBranch.printed
  | .call _ function arguments =>
    function.printed ++ .text "(" :: printedAll "," arguments ++ [.text ")"]
  | .var _ n value => .text "var" :: .text n :: .text "=" :: value.printed
  | .block _ statements => .text "\x7b" :: printedAll ";" statements ++ [.text "\x7d"]

/-- The words of some trees with separators. -/
def printedAll (separator : String) : List Expr → List Word
  | [] => []
  | e :: rest => e.printed ++ printedBehind separator rest

/-- The words of the trees behind another one. -/
def printedBehind (separator : String) : List Expr → List Word
  | [] => []
  | e :: rest => .text separator :: e.printed ++ printedBehind separator rest

end

mutual

/-- How many levels the words of a tree take besides the one that it stands at itself. -/
def nesting : Expr → Nat
  | .int _ _ => 0
  | .bool _ _ => 0
  | .unit _ => 0
  | .name _ _ => 0
  | .unary _ _ operand => operand.nesting + (!bare [] operand).toNat + 1
  | .binary _ op left right =>
    if op = "=" then right.nesting + 1
    else
      max (left.nesting + (!bare (levelsOf op) left).toNat)
        (right.nesting + (!bare (levelsOf op).tail right).toNat)
  | .ifThen _ condition thenBranch => max (condition.nesting + 1) (thenBranch.nesting + 1)
  | .ifElse _ condition thenBranch elseBranch =>
    max (condition.nesting + 1)
      (max (thenBranch.nesting + (guard thenBranch).toNat + 1) (elseBranch.nesting + 1))
  | .call _ _ arguments => nestingAll arguments
  | .var _ _ value => value.nesting
  | .block _ statements => nestingAll statements

/-- How many levels the words of trees inside another one take. -/
def nestingAll : List Expr → Nat
  | [] => 0
  | e :: rest => max (e.nesting + 1) (nestingAll rest)

end

end Expr

/-! ## Tokens that write words -/

/-- Tokens that write some words, one each. -/
abbrev Written (ws : List Word) (ts : List Token) : Prop := List.Forall₂ Word.Writes ws ts

/-- The first word is written by the first token. -/
theorem written_cons {w : Word} {ws : List Word} {ts : List Token} (h : Written (w :: ws) ts) :
    ∃ t us, ts = t :: us ∧ w.Writes t ∧ Written ws us := by
  cases h with
  | cons hw hws => exact ⟨_, _, rfl, hw, hws⟩

/-- Words that are put together are written by tokens that are. -/
theorem written_append {ws vs : List Word} {ts : List Token} (h : Written (ws ++ vs) ts) :
    ∃ us us', ts = us ++ us' ∧ Written ws us ∧ Written vs us' := by
  induction ws generalizing ts with
  | nil => exact ⟨[], ts, rfl, .nil, h⟩
  | cons w ws ih =>
    obtain ⟨t, ts, rfl, hw, hws⟩ := written_cons h
    obtain ⟨us, us', rfl, hus, hus'⟩ := ih hws
    exact ⟨t :: us, us', rfl, .cons hw hus, hus'⟩

/-- Words that all have a spelling can be written. -/
theorem written_tokens {ws : List Word} (h : ∀ w ∈ ws, w.isUnsigned = true) (loc : Location) :
    Written ws (ws.map (·.token loc)) := by
  induction ws with
  | nil => exact .nil
  | cons w ws ih =>
    exact .cons (Word.writes_token (h w List.mem_cons_self) loc)
      (ih fun w' hw' => h w' (List.mem_cons_of_mem _ hw'))

/-- No word is written as the end marker. -/
theorem textKind_ne_end (text : String) : textKind text ≠ .endOfInput := by
  unfold textKind
  split
  · decide
  · split <;> decide

/-- A token with a text of its own is recognized by it. -/
theorem Word.Writes.is_eq {own : String} {t : Token} (h : (Word.text own).Writes t)
    (text : String) : t.is text = decide (own = text) := by
  have htext : t.text = own := h.1
  have hkind : t.kind ≠ .endOfInput := h.2 ▸ textKind_ne_end own
  simp [Token.is, htext, hkind]

/-- Whether a token is among some words is told by the word that it writes. -/
theorem Word.Writes.isAny_eq {own : String} {t : Token} (h : (Word.text own).Writes t)
    (texts : List String) : t.isAny texts = texts.contains own := by
  induction texts with
  | nil => rfl
  | cons text texts ih =>
    rw [Token.isAny, List.any_cons, h.is_eq, ← Token.isAny, ih, List.contains_cons]
    rfl

/-- Whether no literal is spelled like this. -/
def IsSign (text : String) : Bool :=
  !booleanWords.contains text && !text.toList.all Char.isDigit

/-- A token is spelled like a sign only when it writes that sign. -/
theorem Word.Writes.is_sign {w : Word} {t : Token} {text : String} (h : w.Writes t)
    (hw : w ≠ .text text) (hsign : IsSign text = true) : t.is text = false := by
  simp only [IsSign, Bool.and_eq_true, Bool.not_eq_true', List.contains_eq_mem,
    decide_eq_false_iff_not] at hsign
  rcases ht : t.is text with _ | _
  · rfl
  · exfalso
    have htext := Token.text_of_is ht
    cases w with
    | text own => exact hw (by rw [← htext, h.1])
    | integer n => exact absurd (htext ▸ h.1.2.1) (by simp [hsign.2])
    | boolean b =>
      refine hsign.1 (htext ▸ ?_)
      cases b <;> rcases h.1 with h' | h' <;> rw [h'] <;> decide

/-- A word that is no sign is written by no token that is one. -/
theorem Word.Writes.isAny_sign {w : Word} {t : Token} {texts : List String} (h : w.Writes t)
    (htexts : ∀ text ∈ texts, w ≠ .text text ∧ IsSign text = true) : t.isAny texts = false := by
  rw [Token.isAny, List.any_eq_false]
  intro text hmem
  rw [h.is_sign (htexts text hmem).1 (htexts text hmem).2]
  exact Bool.false_ne_true

/-- A plain name is no keyword and no sign. -/
theorem plainName_ne {n text : String} (h : PlainName n)
    (htext : isNameShaped text = false ∨ text ∈ keywords) : n ≠ text := by
  rintro rfl
  rcases htext with htext | htext
  · exact absurd h.1 (by simp [htext])
  · exact h.2 htext

/-- A plain name is written as an identifier. -/
theorem textKind_of_plainName {n : String} (h : PlainName n) : textKind n = .identifier := by
  have hshape : ∀ text ∈ punctuationMarks ++ operatorSigns, isNameShaped text = false := by decide
  rw [textKind, if_neg, if_neg]
  · exact fun hmem => plainName_ne h (.inl (hshape n (List.mem_append_right _ hmem))) rfl
  · exact fun hmem => plainName_ne h (.inl (hshape n (List.mem_append_left _ hmem))) rfl

/-! ## What may follow -/

/-- Whether an expression ends in front of a token. -/
structure Stops (t : Token) : Prop where
  operators : t.isAny Grammar.binaryLevels.flatten = false
  assignment : t.is "=" = false
  call : t.is "(" = false

/-- Behind an expression stop all words that neither continue it nor call it. -/
theorem stops_of_writes {own : String} {t : Token} (h : (Word.text own).Writes t)
    (hown : own ∉ "=" :: "(" :: Grammar.binaryLevels.flatten) : Stops t := by
  simp only [List.mem_cons, not_or] at hown
  refine ⟨?_, ?_, ?_⟩
  · rw [h.isAny_eq]
    simpa using hown.2.2
  · rw [h.is_eq]
    simpa using hown.1
  · rw [h.is_eq]
    simpa using hown.2.1

theorem isAny_endAt (last : Location) (texts : List String) :
    (Token.endAt last).isAny texts = false := by
  induction texts with
  | nil => rfl
  | cons text texts ih => exact ih

/-- The end of the input stops every expression. -/
theorem stops_endAt (last : Location) : Stops (Token.endAt last) :=
  ⟨isAny_endAt last _, rfl, rfl⟩

/-- A token that is none of some words is none of fewer. -/
theorem isAny_false_mono {t : Token} {texts texts' : List String} (h : t.isAny texts = false)
    (hsub : texts' ⊆ texts) : t.isAny texts' = false := by
  rw [Token.isAny, List.any_eq_false] at h ⊢
  exact fun text hmem => h text (hsub hmem)

end ExprLang
