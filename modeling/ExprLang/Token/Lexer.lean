/-
  THE LEXER: a source text as a list of tokens.

  `scan` looks at the front of a text and says what stands there: the end, a gap (white space or
  a comment), a token, or something that starts neither.  It takes the longest such piece, so a
  word is never followed by a letter and `<` never by `=`.  `tokenizeFrom` scans on behind each
  piece and carries the position along.

  The two facts that everything else rests on stand beside `scan`: a gap or token and the rest
  make up the text (`scan_gap`, `scan_token`), and neither is empty, so that scanning ends.
-/
import ExprLang.Token
import ExprLang.Error.Lex

namespace ExprLang

/-! ## Classes of characters -/

/-- White space between tokens. -/
def isSpace (c : Char) : Bool := [' ', '\t', '\r', '\n', '\x0c'].contains c

/-- The first character of a word. -/
def isWordStart (c : Char) : Bool := c.isAlpha || c = '_'

/-- The further characters of a word. -/
def isWordRest (c : Char) : Bool := c.isAlphanum || c = '_'

/-- What may stand in front of `=` in an operator of two characters. -/
def isBeforeEqual (c : Char) : Bool := ['=', '!', '<', '>'].contains c

/-- Operators of one character. -/
def isOperator (c : Char) : Bool := ['-', '+', '*', '/', '%', '=', '<', '>'].contains c

/-- Brackets and separators. -/
def isPunctuation (c : Char) : Bool := ['(', ')', '\x7b', '\x7d', ',', ';'].contains c

/-- Whether a character is not the end of its line. -/
def inLine (c : Char) : Bool := c ≠ '\n'

/-- The words that are Boolean literals. -/
def booleanWords : List String := ["True", "False", "true", "false"]

/-- The kind of a word. -/
def wordKind (word : String) : TokenKind :=
  if booleanWords.contains word then .boolean else .identifier

/-! ## One step -/

/-- What stands at the front of a text.  `gap` and `token` also give the text behind it. -/
inductive Scan where
  | finished
  | gap (skipped rest : List Char)
  | token (kind : TokenKind) (spelling rest : List Char)
  | unexpected (c : Char)
  | unclosed

/-- Split the inside of a comment, closing mark included, from the text behind it. -/
def closeComment : List Char → Option (List Char × List Char)
  | [] => none
  | c :: rest =>
    if c = '*' ∧ rest.head? = some '/' then some (['*', '/'], rest.tail)
    else (closeComment rest).map fun (inside, behind) => (c :: inside, behind)

/-- What stands at the front of a text. -/
def scan : List Char → Scan
  | [] => .finished
  | c :: rest =>
    if isSpace c then .gap [c] rest
    else if c = '#' ∨ (c = '/' ∧ rest.head? = some '/') then
      .gap (c :: rest.takeWhile inLine) (rest.dropWhile inLine)
    else if c = '/' ∧ rest.head? = some '*' then
      match closeComment rest.tail with
      | some (inside, behind) => .gap (c :: '*' :: inside) behind
      | none => .unclosed
    else if isWordStart c then
      .token (wordKind (String.ofList (c :: rest.takeWhile isWordRest)))
        (c :: rest.takeWhile isWordRest) (rest.dropWhile isWordRest)
    else if c.isDigit then
      .token .integer (c :: rest.takeWhile Char.isDigit) (rest.dropWhile Char.isDigit)
    else if isBeforeEqual c ∧ rest.head? = some '=' then .token .operator [c, '='] rest.tail
    else if isOperator c then .token .operator [c] rest
    else if isPunctuation c then .token .punctuation [c] rest
    else .unexpected c

/-! ## A step loses nothing and is not empty -/

theorem cons_tail_of_head? {rest : List Char} {c : Char} (h : rest.head? = some c) :
    c :: rest.tail = rest := by
  cases rest with
  | nil => simp at h
  | cons d rest => simp_all

theorem closeComment_append {text inside behind : List Char}
    (h : closeComment text = some (inside, behind)) : inside ++ behind = text := by
  induction text generalizing inside with
  | nil => simp [closeComment] at h
  | cons c rest ih =>
    unfold closeComment at h
    split at h
    · -- the closing mark is here
      rename_i closed
      obtain ⟨rfl, slash⟩ := closed
      simp only [Option.some.injEq, Prod.mk.injEq] at h
      obtain ⟨rfl, rfl⟩ := h
      simp [cons_tail_of_head? slash]
    · -- it is further on
      simp only [Option.map_eq_some_iff, Prod.exists, Prod.mk.injEq] at h
      obtain ⟨inside', behind', found, rfl, rfl⟩ := h
      simp [ih found]

/-- A gap and the text behind it make up the text. -/
theorem scan_gap {text skipped rest : List Char} (h : scan text = .gap skipped rest) :
    skipped ++ rest = text ∧ skipped ≠ [] := by
  revert h
  fun_cases scan text <;> intro h <;> try contradiction
  all_goals simp only [Scan.gap.injEq] at h
  all_goals obtain ⟨rfl, rfl⟩ := h
  · -- white space
    simp
  · -- a line comment
    simp
  · -- a block comment
    rename_i star inside behind found
    simp [closeComment_append found, cons_tail_of_head? star.2]

/-- A token and the text behind it make up the text. -/
theorem scan_token {text spelling rest : List Char} {kind : TokenKind}
    (h : scan text = .token kind spelling rest) : spelling ++ rest = text ∧ spelling ≠ [] := by
  revert h
  fun_cases scan text <;> intro h <;> try contradiction
  all_goals simp only [Scan.token.injEq] at h
  all_goals obtain ⟨rfl, rfl, rfl⟩ := h
  · -- a word
    simp
  · -- an integer
    simp
  · -- an operator of two characters
    rename_i equal
    simp [cons_tail_of_head? equal.2]
  · -- an operator of one character
    simp
  · -- punctuation
    simp

theorem length_lt_of_append {front rest text : List Char}
    (h : front ++ rest = text ∧ front ≠ []) : rest.length < text.length := by
  obtain ⟨rfl, nonempty⟩ := h
  have := List.length_pos_iff.2 nonempty
  simp only [List.length_append]
  omega

/-! ## The whole text -/

/-- The tokens of a text whose first character stands at `here`. -/
def tokenizeFrom (here : Position) (text : List Char) : Except LexError (List Token) :=
  match _ : scan text with
  | .finished => .ok []
  | .gap skipped rest => tokenizeFrom (here.after skipped) rest
  | .token kind spelling rest =>
    (tokenizeFrom (here.after spelling) rest).map
      (⟨kind, String.ofList spelling, .known here⟩ :: ·)
  | .unexpected c => .error (.unexpectedCharacter c (.known here))
  | .unclosed => .error (.unterminatedComment (.known here))
termination_by text.length
decreasing_by
  · exact length_lt_of_append (scan_gap (by assumption))
  · exact length_lt_of_append (scan_token (by assumption))

/-- The tokens of a source text. -/
def tokenize (source : String) : Except LexError (List Token) :=
  tokenizeFrom .start source.toList

end ExprLang
