/-
  LAYOUT: a tree and the tokens that it was read from.

  `Laid e ts` says how the tokens `ts` make up the tree `e`: which token each node stands for, so
  that the node has its location, and what stands between the parts.  Redundant parentheses are
  part of the layout and not of the tree.  In a block, `LaidOpen` are statements behind which
  another one stands, each with what parts them, and `LaidBody` is all that the braces enclose.

  Read from left to right a tree says the words of its source (`Expr.words`), without parentheses
  and semicolons; a literal says a value, which may be spelled in several ways.
  `says_of_laid` proves that it says nothing else.
-/
import Mathlib.Data.List.Forall2
import ExprLang.Proofs.SourceNames

namespace ExprLang

/-! ## Words in source order -/

/-- What a token of a tree says: a text of its own, or a value. -/
inductive Word where
  | text (spelling : String)
  | integer (value : Int64)
  | boolean (value : Bool)
deriving DecidableEq

/-- Whether a spelling says a word: an integer by any digits with that value, a Boolean by either
    of its two literals. -/
def Word.Spells : Word → String → Prop
  | .text own, spelling => spelling = own
  | .integer n, spelling =>
    spelling.toList ≠ [] ∧ spelling.toList.all Char.isDigit = true ∧
      (Nat.ofDigitChars 10 spelling.toList 0 : Int) = n.toInt
  | .boolean true, spelling => spelling = "True" ∨ spelling = "true"
  | .boolean false, spelling => spelling = "False" ∨ spelling = "false"

/-- A numeral that is all digits is read without a sign. -/
theorem readInt_of_digits {digits : List Char} (hne : digits ≠ [])
    (hdigits : digits.all Char.isDigit = true) :
    Decimal.readInt? digits = some (Nat.ofDigitChars 10 digits 0 : Int) := by
  unfold Decimal.readInt?
  split
  · exact absurd hdigits (by simp)
  · exact absurd hdigits (by simp)
  · rw [Decimal.readNat?, if_pos ⟨hne, hdigits⟩]
    rfl

/-- The digits that are read as a 64-bit integer are those with that value. -/
theorem readInt64_eq_some_iff {text : String} {n : Int64} (hne : text.toList ≠ [])
    (hdigits : text.toList.all Char.isDigit = true) :
    Decimal.readInt64? text = some n ↔ (Nat.ofDigitChars 10 text.toList 0 : Int) = n.toInt := by
  unfold Decimal.readInt64?
  rw [readInt_of_digits hne hdigits]
  simp only [Option.ite_none_right_eq_some, Option.some.injEq]
  constructor
  · rintro ⟨⟨hmin, hmax⟩, rfl⟩
    rw [Int64.toInt_minValue] at hmin
    rw [Int64.toInt_maxValue] at hmax
    rw [Int64.toInt_ofInt_of_le] <;> omega
  · intro h
    rw [h]
    exact ⟨⟨n.minValue_le_toInt, n.toInt_le⟩, n.ofInt_toInt⟩

namespace Expr

mutual

/-- The words of a tree from left to right. -/
def words : Expr → List Word
  | .int _ n => [.integer n]
  | .bool _ b => [.boolean b]
  | .unit _ => []
  | .name _ n => [.text n]
  | .unary _ op operand => .text op :: operand.words
  | .binary _ op left right => left.words ++ .text op :: right.words
  | .ifThen _ condition thenBranch =>
    .text "if" :: condition.words ++ .text "then" :: thenBranch.words
  | .ifElse _ condition thenBranch elseBranch =>
    .text "if" :: condition.words ++ .text "then" :: thenBranch.words
      ++ .text "else" :: elseBranch.words
  | .call _ function arguments => function.words ++ argumentWords arguments
  | .var _ n value => .text "var" :: .text n :: .text "=" :: value.words
  | .block _ statements => .text "\x7b" :: statementWords statements ++ [.text "\x7d"]

/-- The words of some arguments, with commas. -/
def argumentWords : List Expr → List Word
  | [] => []
  | e :: rest => e.words ++ furtherWords rest

/-- The words of the arguments behind another one. -/
def furtherWords : List Expr → List Word
  | [] => []
  | e :: rest => .text "," :: e.words ++ furtherWords rest

/-- The words of some statements. -/
def statementWords : List Expr → List Word
  | [] => []
  | e :: rest => e.words ++ statementWords rest

end

/-- Each further argument is preceded by a comma, the last one too. -/
theorem furtherWords_append (es : List Expr) (e : Expr) :
    furtherWords (es ++ [e]) = furtherWords es ++ .text "," :: e.words := by
  induction es with
  | nil => simp [furtherWords]
  | cons first rest ih => simp [furtherWords, ih]

/-- An argument behind others is preceded by a comma. -/
theorem argumentWords_append {es : List Expr} (hne : es ≠ []) (e : Expr) :
    argumentWords (es ++ [e]) = argumentWords es ++ .text "," :: e.words := by
  cases es with
  | nil => contradiction
  | cons first rest => simp [argumentWords, furtherWords_append]

/-- The words of statements are those of each in turn; semicolons are no words. -/
theorem statementWords_append (es fs : List Expr) :
    statementWords (es ++ fs) = statementWords es ++ statementWords fs := by
  induction es with
  | nil => rfl
  | cons first rest ih => simp [statementWords, ih]

end Expr

/-! ## The layout of a tree -/

/-- Whether a token is one that the grammar takes for a name. -/
def Token.IsName (t : Token) : Prop := t.kind = .identifier ∧ SourceName t.text

/-- Whether some statements end with a unit literal. -/
def EndsInUnit (statements : List Expr) : Prop := ∃ loc, statements.getLast? = some (.unit loc)

/-- Whether some tokens end with a semicolon. -/
def EndsInSemicolon (ts : List Token) : Prop := ∃ t, ts.getLast? = some t ∧ t.is ";" = true

mutual

/-- The tokens of an expression. -/
inductive Laid : Expr → List Token → Prop
  | int {t n} (hkind : t.kind = .integer) (htext : (Word.integer n).Spells t.text) :
      Laid (.int t.location n) [t]
  | bool {t b} (hkind : t.kind = .boolean) (htext : (Word.boolean b).Spells t.text) :
      Laid (.bool t.location b) [t]
  | name {t} (hname : t.IsName) : Laid (.name t.location t.text) [t]
  | parenthesized {e ts opening closing} (hopening : opening.is "(" = true) (he : Laid e ts)
      (hclosing : closing.is ")" = true) : Laid e (opening :: ts ++ [closing])
  | unary {op e ts} (hop : op.isAny Grammar.unaryOperators = true) (he : Laid e ts) :
      Laid (.unary op.location op.text e) (op :: ts)
  | binary {op left right ts us} (hleft : Laid left ts)
      (hop : op.isAny ("=" :: Grammar.binaryLevels.flatten) = true) (hright : Laid right us) :
      Laid (.binary op.location op.text left right) (ts ++ op :: us)
  | ifThen {opening thenWord condition thenBranch ts us} (hopening : opening.is "if" = true)
      (hcondition : Laid condition ts) (hthenWord : thenWord.is "then" = true)
      (hthen : Laid thenBranch us) :
      Laid (.ifThen opening.location condition thenBranch) (opening :: ts ++ thenWord :: us)
  | ifElse {opening thenWord elseWord condition thenBranch elseBranch ts us vs}
      (hopening : opening.is "if" = true) (hcondition : Laid condition ts)
      (hthenWord : thenWord.is "then" = true) (hthen : Laid thenBranch us)
      (helseWord : elseWord.is "else" = true) (helse : Laid elseBranch vs) :
      Laid (.ifElse opening.location condition thenBranch elseBranch)
        (opening :: ts ++ thenWord :: us ++ elseWord :: vs)
  | call {f opening closing arguments ts} (hname : f.IsName) (hopening : opening.is "(" = true)
      (harguments : LaidArguments arguments ts) (hclosing : closing.is ")" = true) :
      Laid (.call f.location (.name f.location f.text) arguments) (f :: opening :: ts ++ [closing])
  | block {opening closing statements ts} (hopening : opening.is "\x7b" = true)
      (hbody : LaidBody statements ts) (hclosing : closing.is "\x7d" = true)
      (hunit : EndsInUnit statements ↔ EndsInSemicolon ts) :
      Laid (.block opening.location statements) (opening :: ts ++ [closing])

/-- The tokens of some arguments: each behind the first has a comma in front. -/
inductive LaidArguments : List Expr → List Token → Prop
  | none : LaidArguments [] []
  | first {e ts} (he : Laid e ts) : LaidArguments [e] ts
  | further {es ts comma e us} (hes : LaidArguments es ts) (hne : es ≠ [])
      (hcomma : comma.is "," = true) (he : Laid e us) :
      LaidArguments (es ++ [e]) (ts ++ comma :: us)

/-- The tokens of a statement. -/
inductive LaidStatement : Expr → List Token → Prop
  | expression {e ts} (he : Laid e ts) : LaidStatement e ts
  | declaration {opening t sign value ts} (hopening : opening.is "var" = true)
      (hname : t.IsName) (hsign : sign.is "=" = true) (hvalue : Laid value ts) :
      LaidStatement (.var opening.location t.text value) (opening :: t :: sign :: ts)

/-- The tokens of statements that another one stands behind: a semicolon parts it from the last
    of them, unless that is compound. -/
inductive LaidOpen : List Expr → List Token → Prop
  | none : LaidOpen [] []
  | semicolon {es ts e us semicolon} (hes : LaidOpen es ts) (he : LaidStatement e us)
      (hsemicolon : semicolon.is ";" = true) : LaidOpen (es ++ [e]) (ts ++ us ++ [semicolon])
  | compound {es ts e us} (hes : LaidOpen es ts) (he : LaidStatement e us)
      (hcompound : e.isCompound = true) : LaidOpen (es ++ [e]) (ts ++ us)

/-- The tokens of all statements of a block: a last semicolon stands for a unit literal. -/
inductive LaidBody : List Expr → List Token → Prop
  | none : LaidBody [] []
  | last {es ts e us} (hes : LaidOpen es ts) (he : LaidStatement e us) :
      LaidBody (es ++ [e]) (ts ++ us)
  | closed {es ts e us semicolon} (hes : LaidOpen es ts) (he : LaidStatement e us)
      (hsemicolon : semicolon.is ";" = true) :
      LaidBody (es ++ [e, .unit semicolon.location]) (ts ++ us ++ [semicolon])

end

/-! ## Where semicolons stand -/

/-- A token that is a text has that text. -/
theorem Token.text_of_is {t : Token} {text : String} (h : t.is text = true) : t.text = text := by
  simp only [Token.is, Bool.and_eq_true, decide_eq_true_eq] at h
  exact h.2

/-- Tokens with something else than a semicolon at the end. -/
def EndsOpen (ts : List Token) : Prop := ∃ front t, ts = front ++ [t] ∧ t.text ≠ ";"

/-- Whether more may follow is decided by the last token, whatever stands in front. -/
theorem EndsOpen.append {ts : List Token} (h : EndsOpen ts) (front : List Token) :
    EndsOpen (front ++ ts) := by
  obtain ⟨front', t, rfl, ht⟩ := h
  exact ⟨front ++ front', t, (List.append_assoc ..).symm, ht⟩

/-- One token more in front does not matter either. -/
theorem EndsOpen.cons {ts : List Token} (h : EndsOpen ts) (t : Token) : EndsOpen (t :: ts) :=
  h.append [t]

/-- Tokens whose last one is no semicolon end open. -/
theorem endsOpen_concat {front : List Token} {t : Token} {text : String} (h : t.is text = true)
    (hne : text ≠ ";") : EndsOpen (front ++ [t]) :=
  ⟨front, t, rfl, fun ht => hne (Token.text_of_is h ▸ ht)⟩

/-- No name is spelled like a sign of the grammar. -/
theorem Token.IsName.text_ne {t : Token} (h : t.IsName) {text : String}
    (htext : isWord text = false) : t.text ≠ text := by
  rintro rfl
  exact absurd h.2.1 (by simp [htext])

/-- No literal is spelled like a parenthesis or a semicolon. -/
theorem Word.Spells.not_mem {w : Word} {spelling : String} (h : w.Spells spelling)
    (hliteral : ∀ own, w ≠ .text own) : spelling ∉ ["(", ")", ";"] := by
  intro hmem
  cases w with
  | text own => exact hliteral own rfl
  | integer n =>
    obtain ⟨-, hdigits, -⟩ := h
    simp only [List.mem_cons, List.not_mem_nil, or_false] at hmem
    rcases hmem with rfl | rfl | rfl <;> exact absurd hdigits (by decide)
  | boolean b =>
    cases b <;> rcases h with rfl | rfl <;> exact absurd hmem (by decide)

/-- No expression ends with a semicolon. -/
theorem endsOpen_of_laid {e : Expr} {ts : List Token} : Laid e ts → EndsOpen ts
  | .int _ htext => ⟨[], _, rfl, fun h => htext.not_mem (by simp) (by simp [h])⟩
  | .bool _ htext => ⟨[], _, rfl, fun h => htext.not_mem (by simp) (by simp [h])⟩
  | .name hname => ⟨[], _, rfl, hname.text_ne (by decide)⟩
  | .parenthesized _ _ hclosing => endsOpen_concat hclosing (by decide)
  | .unary _ he => (endsOpen_of_laid he).cons _
  | .binary _ _ hright => ((endsOpen_of_laid hright).cons _).append _
  | .ifThen _ _ _ hthen => ((endsOpen_of_laid hthen).cons _).append _
  | .ifElse _ _ _ _ _ helse => ((endsOpen_of_laid helse).cons _).append _
  | .call _ _ _ hclosing => endsOpen_concat hclosing (by decide)
  | .block _ _ hclosing _ => endsOpen_concat hclosing (by decide)

/-- No statement ends in a semicolon of its own. -/
theorem endsOpen_of_laidStatement {e : Expr} {ts : List Token} (h : LaidStatement e ts) :
    EndsOpen ts := by
  cases h with
  | expression he => exact endsOpen_of_laid he
  | declaration _ _ _ hvalue => exact (((endsOpen_of_laid hvalue).cons _).cons _).cons _

/-- A unit literal is no expression of its own, however many parentheses stand round it. -/
theorem ne_unit_of_laid {e : Expr} {ts : List Token} (loc : Location) : Laid e ts → e ≠ .unit loc
  | .parenthesized _ he _ => ne_unit_of_laid loc he
  | .int .. | .bool .. | .name .. | .unary .. | .binary .. | .ifThen .. | .ifElse .. | .call ..
  | .block .. => fun h => by contradiction

/-- A unit literal has no tokens to be laid out in. -/
theorem ne_unit_of_laidStatement {e : Expr} {ts : List Token} (loc : Location)
    (h : LaidStatement e ts) : e ≠ .unit loc := by
  cases h with
  | expression he => exact ne_unit_of_laid loc he
  | declaration => exact fun h => by contradiction

/-- The statements of a block end with a unit literal exactly when a semicolon stands at their
    end. -/
theorem endsInUnit_iff {statements : List Expr} {ts : List Token} (h : LaidBody statements ts) :
    EndsInUnit statements ↔ EndsInSemicolon ts := by
  cases h with
  | none => simp [EndsInUnit, EndsInSemicolon]
  | @last es us e vs hes he =>
    obtain ⟨front, t, rfl, ht⟩ := endsOpen_of_laidStatement he
    constructor
    · rintro ⟨loc, hloc⟩
      rw [List.getLast?_concat, Option.some.injEq] at hloc
      exact absurd hloc (ne_unit_of_laidStatement loc he)
    · rintro ⟨t', ht', hsemicolon⟩
      rw [← List.append_assoc, List.getLast?_concat, Option.some.injEq] at ht'
      exact absurd (Token.text_of_is hsemicolon) (ht' ▸ ht)
  | @closed es us e vs semicolon hes he hsemicolon =>
    constructor
    · exact fun _ => ⟨semicolon, List.getLast?_concat .., hsemicolon⟩
    · exact fun _ => ⟨semicolon.location, by simp⟩

/-! ## A tree says its source -/

/-- The spellings of tokens, without parentheses and semicolons. -/
def spellings (ts : List Token) : List String :=
  (ts.map (·.text)).filter fun text => !(["(", ")", ";"].contains text)

/-- Spellings are listed token by token. -/
theorem spellings_append (ts us : List Token) :
    spellings (ts ++ us) = spellings ts ++ spellings us := by
  simp [spellings]

/-- Parentheses and semicolons are left out. -/
theorem spellings_cons_of_mem {t : Token} {text : String} (h : t.is text = true)
    (hmem : text ∈ ["(", ")", ";"]) (ts : List Token) : spellings (t :: ts) = spellings ts := by
  rw [spellings, List.map_cons, List.filter_cons_of_neg, spellings]
  rw [Token.text_of_is h]
  simpa only [Bool.not_eq_true, Bool.not_eq_false', List.contains_iff_mem] using hmem

/-- Every other token is listed with its text. -/
theorem spellings_cons_of_not_mem {t : Token} (h : t.text ∉ ["(", ")", ";"]) (ts : List Token) :
    spellings (t :: ts) = t.text :: spellings ts := by
  rw [spellings, List.map_cons, List.filter_cons_of_pos, spellings]
  simpa only [Bool.not_eq_true', List.contains_eq_mem, decide_eq_false_iff_not] using h

/-- Whether some words are what tokens say. -/
def Says (ws : List Word) (ts : List Token) : Prop := List.Forall₂ Word.Spells ws (spellings ts)

/-- Words and tokens may be put together piece by piece. -/
theorem Says.append {ws vs : List Word} {ts us : List Token} (h : Says ws ts) (h' : Says vs us) :
    Says (ws ++ vs) (ts ++ us) := by
  rw [Says, spellings_append]
  exact List.rel_append h h'

/-- A word may be put in front, together with a token that spells it. -/
theorem Says.cons {w : Word} {ws : List Word} {t : Token} {ts : List Token}
    (ht : t.text ∉ ["(", ")", ";"]) (hw : w.Spells t.text) (h : Says ws ts) :
    Says (w :: ws) (t :: ts) := by
  rw [Says, spellings_cons_of_not_mem ht]
  exact .cons hw h

/-- A parenthesis or a semicolon says nothing. -/
theorem Says.skip {ws : List Word} {t : Token} {ts : List Token} {text : String}
    (ht : t.is text = true) (hmem : text ∈ ["(", ")", ";"]) (h : Says ws ts) :
    Says ws (t :: ts) := by
  rw [Says, spellings_cons_of_mem ht hmem]
  exact h

/-- A token with a text of its own. -/
theorem Says.text {ws : List Word} {t : Token} {ts : List Token} {text : String}
    (ht : t.is text = true) (hmem : text ∉ ["(", ")", ";"]) (h : Says ws ts) :
    Says (.text text :: ws) (t :: ts) :=
  .cons (Token.text_of_is ht ▸ hmem) (Token.text_of_is ht) h

/-- Nothing is said by no tokens. -/
theorem says_nil : Says [] [] := .nil

/-- The token of a name says the name. -/
theorem Says.name {ws : List Word} {t : Token} {ts : List Token} (ht : t.IsName) (h : Says ws ts) :
    Says (.text t.text :: ws) (t :: ts) := by
  refine .cons (fun hmem => ?_) rfl h
  simp only [List.mem_cons, List.not_mem_nil, or_false] at hmem
  rcases hmem with hmem | hmem | hmem <;> exact ht.text_ne (by decide) hmem

/-- The token of an operator says the operator, if none of its table is left out. -/
theorem Says.operator {ws : List Word} {t : Token} {ts : List Token} {texts : List String}
    (ht : t.isAny texts = true) (htexts : ∀ text ∈ texts, text ∉ ["(", ")", ";"])
    (h : Says ws ts) :
    Says (.text t.text :: ws) (t :: ts) :=
  .cons (htexts _ (Grammar.mem_of_isAny ht)) rfl h

mutual

/-- A tree says exactly its tokens, in their order. -/
theorem says_of_laid {e : Expr} {ts : List Token} : Laid e ts → Says e.words ts
  | .int _ htext => .cons (htext.not_mem (by simp)) htext says_nil
  | .bool _ htext => .cons (htext.not_mem (by simp)) htext says_nil
  | .name hname => .name hname says_nil
  | .parenthesized hopening he hclosing => by
    have hclosing' : Says [] [_] := says_nil.skip hclosing (by decide)
    simpa using ((says_of_laid he).append hclosing').skip hopening (by decide)
  | .unary hop he => .operator hop (by decide) (says_of_laid he)
  | .binary hleft hop hright =>
    (says_of_laid hleft).append (.operator hop (by decide) (says_of_laid hright))
  | .ifThen hopening hcondition hthenWord hthen =>
    .append (.text hopening (by decide) (says_of_laid hcondition))
      (.text hthenWord (by decide) (says_of_laid hthen))
  | .ifElse hopening hcondition hthenWord hthen helseWord helse =>
    .append (.append (.text hopening (by decide) (says_of_laid hcondition))
      (.text hthenWord (by decide) (says_of_laid hthen)))
      (.text helseWord (by decide) (says_of_laid helse))
  | .call hname hopening harguments hclosing => by
    have hclosing' : Says [] [_] := says_nil.skip hclosing (by decide)
    have hlist := ((says_of_laidArguments harguments).append hclosing').skip hopening (by decide)
    simpa [Expr.words] using hlist.name hname
  | .block hopening hbody hclosing _ =>
    .append (.text hopening (by decide) (says_of_laidBody hbody))
      (.text hclosing (by decide) says_nil)

/-- The tokens of arguments say their words, with the commas. -/
theorem says_of_laidArguments {es : List Expr} {ts : List Token} :
    LaidArguments es ts → Says (Expr.argumentWords es) ts
  | .none => says_nil
  | .first he => by simpa [Expr.argumentWords, Expr.furtherWords] using says_of_laid he
  | .further hes hne hcomma he => by
    rw [Expr.argumentWords_append hne]
    exact (says_of_laidArguments hes).append (.text hcomma (by decide) (says_of_laid he))

/-- The tokens of a statement say its words, those of a declaration with `var` and `=`. -/
theorem says_of_laidStatement {e : Expr} {ts : List Token} :
    LaidStatement e ts → Says e.words ts
  | .expression he => says_of_laid he
  | .declaration hopening hname hsign hvalue =>
    .text hopening (by decide) (.name hname (.text hsign (by decide) (says_of_laid hvalue)))

/-- The tokens of statements that end in a semicolon say the words of the statements. -/
theorem says_of_laidOpen {es : List Expr} {ts : List Token} :
    LaidOpen es ts → Says (Expr.statementWords es) ts
  | .none => says_nil
  | .semicolon hes he hsemicolon => by
    have hsemicolon' : Says [] [_] := says_nil.skip hsemicolon (by decide)
    simpa [Expr.statementWords_append, Expr.statementWords] using
      ((says_of_laidOpen hes).append (says_of_laidStatement he)).append hsemicolon'
  | .compound hes he _ => by
    simpa [Expr.statementWords_append, Expr.statementWords] using
      (says_of_laidOpen hes).append (says_of_laidStatement he)

/-- The tokens between two braces say the words of the statements. -/
theorem says_of_laidBody {es : List Expr} {ts : List Token} :
    LaidBody es ts → Says (Expr.statementWords es) ts
  | .none => says_nil
  | .last hes he => by
    simpa [Expr.statementWords_append, Expr.statementWords] using
      (says_of_laidOpen hes).append (says_of_laidStatement he)
  | .closed hes he hsemicolon => by
    have hsemicolon' : Says [] [_] := says_nil.skip hsemicolon (by decide)
    simpa [Expr.statementWords_append, Expr.statementWords, Expr.words] using
      ((says_of_laidOpen hes).append (says_of_laidStatement he)).append hsemicolon'

end

end ExprLang
