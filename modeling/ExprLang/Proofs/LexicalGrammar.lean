/-
  THE LEXICAL GRAMMAR: what a text reads as, said without a lexer.

  A text divides into gaps and tokens in turn: a gap is any run of white space and comments, and a
  token is spelled as its kind says and cannot be made longer by the character behind it.  Behind
  the last gap the text ends, or a character stands that starts nothing, or a comment is opened
  that is never closed.  `ReadsAs text reading` says that a text divides in this way.

  `Reading.result` is what a reading says about the text: its tokens, each at the position behind
  the text in front of it, or the error at the place where they end.

  The second half is about one step of the lexer: in front of white space, a comment, a token or an
  ending, `scan` finds just that (`scan_space`, `scan_line`, `scan_block`, `scan_of_spells`,
  `scan_of_holds`).  The side conditions are what the step needs: no other piece is longer.
-/
import ExprLang.Proofs.ParsedLayout
import ExprLang.Proofs.Printing

namespace ExprLang

/-! ## Where a character stands -/

/-- The position of the character behind a text: its row counts line feeds, and its column counts
    the characters since the last one. -/
def Position.behind (text : List Char) : Position :=
  ⟨text.count '\n' + 1, (text.reverse.takeWhile inLine).length + 1⟩

/-- Behind one more character the position has made one step more. -/
theorem Position.behind_concat (text : List Char) (c : Char) :
    behind (text ++ [c]) = (behind text).step c := by
  by_cases hfeed : c = '\n'
  · simp [behind, step, inLine, hfeed]
  · simp [behind, step, inLine, hfeed]

/-- The position that the lexer carries along is the one behind the text read so far. -/
theorem Position.after_behind (front text : List Char) :
    (behind front).after text = behind (front ++ text) := by
  induction text generalizing front with
  | nil => rw [List.append_nil, after_nil]
  | cons c rest ih => rw [after_cons, ← behind_concat, ih, List.append_assoc, List.singleton_append]

/-! ## Tokens -/

/-- The language of a kind of tokens. -/
def TokenKind.Spells : TokenKind → List Char → Prop
  | .identifier, text => isWord (String.ofList text) = true
  | .integer, text => text ≠ [] ∧ ∀ c ∈ text, c.isDigit = true
  | .boolean, text => String.ofList text ∈ booleanWords
  | .operator, text => String.ofList text ∈ operatorSigns
  | .punctuation, text => String.ofList text ∈ punctuationMarks
  | .endOfInput, _ => False

/-- Whether a token ends in front of `rest`: the next character neither continues it nor turns it
    into the opening of a comment. -/
def TokenKind.Ends : TokenKind → List Char → List Char → Prop
  | .identifier, _, rest => ∀ c, rest.head? = some c → isWordRest c = false
  | .boolean, _, rest => ∀ c, rest.head? = some c → isWordRest c = false
  | .integer, _, rest => ∀ c, rest.head? = some c → c.isDigit = false
  | .operator, text, rest =>
    (text ∈ [['='], ['<'], ['>']] → rest.head? ≠ some '=') ∧
      (text = ['/'] → rest.head? ≠ some '/' ∧ rest.head? ≠ some '*')
  | _, _, _ => True

/-! ## Gaps -/

/-- The marks that open a comment up to the end of its line. -/
def lineMarks : List (List Char) := [['/', '/'], ['#']]

/-- Whether a text leaves a comment open: no closing mark stands in it. -/
def LeavesOpen (text : List Char) : Prop := ¬['*', '/'] <:+: text

/-- White space and comments, in front of a text.  A comment of one line goes on to the end of the
    line, any other one to the first closing mark. -/
inductive Gap : List Char → List Char → Prop
  | nothing {rest} : Gap [] rest
  | space {c skipped rest} (hspace : isSpace c = true) (hskipped : Gap skipped rest) :
      Gap (c :: skipped) rest
  | line {mark line skipped rest} (hmark : mark ∈ lineMarks) (hline : '\n' ∉ line)
      (hend : ∀ c, (skipped ++ rest).head? = some c → c = '\n') (hskipped : Gap skipped rest) :
      Gap (mark ++ line ++ skipped) rest
  | block {inside skipped rest} (hfirst : LeavesOpen inside) (hskipped : Gap skipped rest) :
      Gap (['/', '*'] ++ inside ++ ['*', '/'] ++ skipped) rest

/-! ## Readings -/

/-- A token with the gap in front of it. -/
structure Lexeme where
  gap : List Char
  kind : TokenKind
  text : List Char

/-- Where the tokens of a text end, and why. -/
inductive Ending where
  | finished
  | unexpected (c : Char) (behind : List Char)
  | unclosed (inside : List Char)

/-- What stands where the tokens end. -/
def Ending.text : Ending → List Char
  | .finished => []
  | .unexpected c behind => c :: behind
  | .unclosed inside => '/' :: '*' :: inside

/-- Whether there is nothing more to read: a character is unexpected when nothing starts with it, no
    white space, no comment and no token. -/
def Ending.Holds : Ending → Prop
  | .finished => True
  | .unexpected c behind => isSpace c = false ∧ (∀ mark ∈ lineMarks, ¬mark <+: c :: behind) ∧
      ∀ kind text, TokenKind.Spells kind text → ¬text <+: c :: behind
  | .unclosed inside => LeavesOpen inside

/-- A text as its tokens, the last gap and the ending. -/
structure Reading where
  lexemes : List Lexeme
  gap : List Char
  ending : Ending

/-- A text divides into the gaps and tokens of a reading. -/
inductive ReadsAs : List Char → Reading → Prop
  | ending {gap ending} (hgap : Gap gap ending.text) (hending : ending.Holds) :
      ReadsAs (gap ++ ending.text) ⟨[], gap, ending⟩
  | token {gap kind text rest lexemes last ending} (hgap : Gap gap (text ++ rest))
      (hspells : TokenKind.Spells kind text) (hends : TokenKind.Ends kind text rest)
      (hrest : ReadsAs rest ⟨lexemes, last, ending⟩) :
      ReadsAs (gap ++ (text ++ rest)) ⟨⟨gap, kind, text⟩ :: lexemes, last, ending⟩

/-- The tokens of some lexemes that stand behind `front`. -/
def tokensBehind (front : List Char) : List Lexeme → List Token
  | [] => []
  | l :: lexemes =>
    ⟨l.kind, String.ofList l.text, .known (.behind (front ++ l.gap))⟩ ::
      tokensBehind (front ++ l.gap ++ l.text) lexemes

/-- The characters of some lexemes. -/
def lexemesText (lexemes : List Lexeme) : List Char := lexemes.flatMap fun l => l.gap ++ l.text

/-- What a reading says about a text that stands behind `front`: its tokens, or what is wrong at the
    place where they end. -/
def Reading.resultBehind (front : List Char) (r : Reading) : Except LexError (List Token) :=
  let place : Location := .known (.behind (front ++ lexemesText r.lexemes ++ r.gap))
  match r.ending with
  | .finished => .ok (tokensBehind front r.lexemes)
  | .unexpected c _ => .error (.unexpectedCharacter c place)
  | .unclosed _ => .error (.unterminatedComment place)

/-- What a reading says about a whole text. -/
def Reading.result (r : Reading) : Except LexError (List Token) := r.resultBehind []

/-! ## What `scan` finds where the grammar says what stands there -/

/-- No word begins with a digit. -/
theorem isWordStart_of_isDigit {c : Char} (h : c.isDigit = true) : isWordStart c = false := by
  have hrange : 48 ≤ c.val.toNat ∧ c.val.toNat ≤ 57 := by
    simpa [Char.isDigit, UInt32.le_iff_toNat_le] using h
  have hline : c ≠ '_' := by
    rintro rfl
    simp at hrange
  simp only [isWordStart, Char.isAlpha, Char.isUpper, Char.isLower, hline, decide_false,
    Bool.or_false, Bool.or_eq_false_iff, decide_eq_false_iff_not, Bool.and_eq_false_imp,
    UInt32.le_iff_toNat_le, ge_iff_le, decide_eq_true_eq, not_and]
  have hbounds : ('A'.val.toNat = 65 ∧ 'Z'.val.toNat = 90) ∧ 'a'.val.toNat = 97 := by decide
  omega

/-- No word and no integer starts like a gap. -/
theorem not_start_of_isSpace {c : Char} (h : isSpace c = true ∨ c = '#' ∨ c = '/') :
    isWordStart c = false ∧ c.isDigit = false := by
  have hall : ∀ d ∈ [' ', '\t', '\r', '\n', '\x0c', '#', '/'],
      isWordStart d = false ∧ d.isDigit = false := List.forall_iff_forall_mem.1 (by decide)
  refine hall c ?_
  rcases h with hspace | rfl | rfl
  · have hmem : c ∈ [' ', '\t', '\r', '\n', '\x0c'] := by simpa [isSpace] using hspace
    exact List.mem_append_left ['#', '/'] hmem
  · decide
  · decide

/-- A run of characters of a class is split off as a whole when the next character is of another
    class. -/
theorem span_append {p : Char → Bool} {front rest : List Char} (hfront : ∀ c ∈ front, p c = true)
    (hrest : ∀ c, rest.head? = some c → p c = false) :
    (front ++ rest).takeWhile p = front ∧ (front ++ rest).dropWhile p = rest := by
  rw [List.takeWhile_append_of_pos hfront, List.dropWhile_append_of_pos hfront]
  cases rest with
  | nil => simp
  | cons c rest => simp [hrest c rfl]

/-- What is split off ends where the class does. -/
theorem head?_dropWhile {p : Char → Bool} {text : List Char} {c : Char}
    (h : (text.dropWhile p).head? = some c) : p c = false := by
  have hnot := List.head?_dropWhile_not p text
  rwa [h] at hnot

/-! ### Gaps -/

/-- White space is skipped character by character. -/
theorem scan_space {c : Char} {rest : List Char} (hspace : isSpace c = true) :
    scan (c :: rest) = .gap [c] rest := by
  rw [scan, if_pos hspace]

/-- A line comment goes up to the line feed, or to the end of the text. -/
theorem scan_line {mark line rest : List Char} (hmark : mark ∈ lineMarks) (hline : '\n' ∉ line)
    (hend : ∀ c, rest.head? = some c → c = '\n') :
    scan (mark ++ line ++ rest) = .gap (mark ++ line) rest := by
  have hall : ∀ c ∈ line, inLine c = true := fun c hc => by
    simpa [inLine] using fun h : c = '\n' => hline (h ▸ hc)
  have hbehind : ∀ c, rest.head? = some c → inLine c = false := fun c hc => by
    simp [inLine, hend c hc]
  simp only [lineMarks, List.mem_cons, List.not_mem_nil, or_false] at hmark
  rcases hmark with rfl | rfl
  · -- the second slash belongs to the line that the lexer goes on to the end of
    have hall' : ∀ c ∈ '/' :: line, inLine c = true := fun c hc => by
      rcases List.mem_cons.1 hc with rfl | hc
      · rfl
      · exact hall c hc
    obtain ⟨htake, hdrop⟩ := span_append hall' hbehind
    show scan ('/' :: ('/' :: line ++ rest)) = _
    rw [scan, if_neg (by decide), if_pos (by simp), htake, hdrop]
    rfl
  · obtain ⟨htake, hdrop⟩ := span_append hall hbehind
    show scan ('#' :: (line ++ rest)) = _
    rw [scan, if_neg (by decide), if_pos (by simp), htake, hdrop]
    rfl

/-- The empty text closes no comment. -/
theorem leavesOpen_nil : LeavesOpen [] := by simp [LeavesOpen]

/-- A text leaves a comment open if it does not begin with the closing mark and its rest leaves the
    comment open. -/
theorem leavesOpen_cons {c : Char} {text : List Char} :
    LeavesOpen (c :: text) ↔ ¬(c = '*' ∧ text.head? = some '/') ∧ LeavesOpen text := by
  have hhere : ['*', '/'] <+: c :: text ↔ c = '*' ∧ text.head? = some '/' := by
    cases text <;> simp [List.cons_prefix_cons, eq_comm]
  rw [LeavesOpen, LeavesOpen, List.infix_cons_iff, hhere, not_or]

/-- The search for the closing mark fails on just these texts. -/
theorem closeComment_eq_none_iff {text : List Char} :
    closeComment text = none ↔ LeavesOpen text := by
  induction text with
  | nil => exact iff_of_true rfl leavesOpen_nil
  | cons c rest ih =>
    rw [closeComment, leavesOpen_cons]
    split
    · rename_i hclosed
      simp [hclosed]
    · rename_i hopen
      simp only [Option.map_eq_none_iff, ih, hopen, not_false_iff, true_and]

/-- A comment goes on to the first closing mark. -/
theorem closeComment_of_leavesOpen {inside rest : List Char} (h : LeavesOpen inside) :
    closeComment (inside ++ ['*', '/'] ++ rest) = some (inside ++ ['*', '/'], rest) := by
  induction inside with
  | nil => simp [closeComment]
  | cons c inside ih =>
    obtain ⟨hhere, hinside⟩ := leavesOpen_cons.1 h
    have hopen : ¬(c = '*' ∧ (inside ++ ['*', '/'] ++ rest).head? = some '/') := by
      -- the character in front of the mark is followed by the star
      cases inside with
      | nil => simp
      | cons d inside => exact hhere
    rw [List.cons_append, List.cons_append, closeComment, if_neg hopen, ih hinside]
    rfl

/-- The mark that closes a comment is the first one. -/
theorem leavesOpen_of_closeComment {text found rest : List Char}
    (h : closeComment text = some (found, rest)) :
    ∃ inside, LeavesOpen inside ∧ found = inside ++ ['*', '/'] := by
  induction text generalizing found with
  | nil => simp [closeComment] at h
  | cons c text ih =>
    rw [closeComment] at h
    split at h
    · simp only [Option.some.injEq, Prod.mk.injEq] at h
      exact ⟨[], leavesOpen_nil, h.1.symm⟩
    · rename_i hopen
      simp only [Option.map_eq_some_iff, Prod.exists, Prod.mk.injEq] at h
      obtain ⟨found', _, hfound, rfl, rfl⟩ := h
      obtain ⟨inside, hinside, rfl⟩ := ih hfound
      refine ⟨c :: inside, leavesOpen_cons.2 ⟨fun hhere => hopen ⟨hhere.1, ?_⟩, hinside⟩, rfl⟩
      rw [← closeComment_append hfound]
      cases inside with
      | nil => simp at hhere
      | cons d inside => exact hhere.2

/-- A block comment goes up to the first closing mark. -/
theorem scan_block {inside rest : List Char} (h : LeavesOpen inside) :
    scan (['/', '*'] ++ inside ++ ['*', '/'] ++ rest)
      = .gap (['/', '*'] ++ inside ++ ['*', '/']) rest := by
  show scan ('/' :: '*' :: (inside ++ ['*', '/'] ++ rest)) = _
  rw [scan, if_neg (by decide), if_neg (by simp), if_pos (by simp), List.tail_cons,
    closeComment_of_leavesOpen h]
  rfl

/-- A block comment that is not closed is an error. -/
theorem scan_unclosed {inside : List Char} (h : LeavesOpen inside) :
    scan ('/' :: '*' :: inside) = .unclosed := by
  rw [scan, if_neg (by decide), if_neg (by simp), if_pos (by simp), List.tail_cons,
    closeComment_eq_none_iff.2 h]

/-! ### Tokens -/

/-- A word of either kind starts with a letter and goes on with letters and digits. -/
theorem word_of_spells {kind : TokenKind} {text : List Char}
    (hkind : kind = .identifier ∨ kind = .boolean) (h : TokenKind.Spells kind text) :
    wordKind (String.ofList text) = kind ∧ ∃ c rest, text = c :: rest ∧ isWordStart c = true ∧
      ∀ d ∈ rest, isWordRest d = true := by
  rcases hkind with rfl | rfl
  · cases text with
    | nil => simp [TokenKind.Spells, isWord] at h
    | cons c rest =>
      simp only [TokenKind.Spells, isWord, String.toList_ofList, Bool.and_eq_true,
        List.all_eq_true, Bool.not_eq_true'] at h
      obtain ⟨⟨hstart, hrest⟩, hliteral⟩ := h
      exact ⟨by rw [wordKind, hliteral]; rfl, c, rest, rfl, hstart, hrest⟩
  · have hmem : String.ofList text ∈ booleanWords := h
    refine ⟨by rw [wordKind, if_pos (by simpa using hmem)], ?_⟩
    have hwords : ∀ word ∈ booleanWords, ∃ c rest, word.toList = c :: rest ∧
        isWordStart c = true ∧ ∀ d ∈ rest, isWordRest d = true := by
      intro word hword
      simp only [booleanWords, List.mem_cons, List.not_mem_nil, or_false] at hword
      rcases hword with rfl | rfl | rfl | rfl <;>
        exact ⟨_, _, rfl, rfl, List.forall_iff_forall_mem.1 (by decide)⟩
    simpa only [String.toList_ofList] using hwords _ hmem

/-- A word goes as far as its characters do. -/
theorem scan_word {c : Char} {front rest : List Char} (hstart : isWordStart c = true)
    (hfront : ∀ d ∈ front, isWordRest d = true)
    (hrest : ∀ d, rest.head? = some d → isWordRest d = false) :
    scan (c :: front ++ rest)
      = .token (wordKind (String.ofList (c :: front))) (c :: front) rest := by
  obtain ⟨htake, hdrop⟩ := span_append hfront hrest
  have hgap : ¬(isSpace c = true ∨ c = '#' ∨ c = '/') := fun h => by
    simp [(not_start_of_isSpace h).1] at hstart
  simp only [not_or] at hgap
  rw [List.cons_append, scan, if_neg hgap.1, if_neg (by simp [hgap.2]), if_neg (by simp [hgap.2]),
    if_pos hstart, htake, hdrop]

/-- A number goes as far as the digits do. -/
theorem scan_integer {c : Char} {front rest : List Char} (hstart : c.isDigit = true)
    (hfront : ∀ d ∈ front, d.isDigit = true)
    (hrest : ∀ d, rest.head? = some d → d.isDigit = false) :
    scan (c :: front ++ rest) = .token .integer (c :: front) rest := by
  obtain ⟨htake, hdrop⟩ := span_append hfront hrest
  have hgap : ¬(isSpace c = true ∨ c = '#' ∨ c = '/') := fun h => by
    simp [(not_start_of_isSpace h).2] at hstart
  simp only [not_or] at hgap
  rw [List.cons_append, scan, if_neg hgap.1, if_neg (by simp [hgap.2]), if_neg (by simp [hgap.2]),
    if_neg (by simp [isWordStart_of_isDigit hstart]), if_pos hstart, htake, hdrop]

/-- Signs are neither white space nor words nor integers, and start no comment of their own. -/
theorem sign_start {c : Char}
    (h : isBeforeEqual c = true ∨ isOperator c = true ∨ isPunctuation c = true) :
    isSpace c = false ∧ c ≠ '#' ∧ isWordStart c = false ∧ c.isDigit = false := by
  have hall : ∀ d ∈ ['=', '!', '<', '>'] ++ (['-', '+', '*', '/', '%', '=', '<', '>'] ++
      ['(', ')', '\x7b', '\x7d', ',', ';']),
      isSpace d = false ∧ d ≠ '#' ∧ isWordStart d = false ∧ d.isDigit = false :=
    List.forall_iff_forall_mem.1 (by decide)
  refine hall c ?_
  simpa only [List.mem_append, isBeforeEqual, isOperator, isPunctuation, List.contains_eq_mem,
    decide_eq_true_eq] using h

/-- Four of the operators take an equals sign with them. -/
theorem scan_beforeEqual {c : Char} {rest : List Char} (h : isBeforeEqual c = true) :
    scan (c :: '=' :: rest) = .token .operator [c, '='] rest := by
  obtain ⟨hspace, hline, hword, hdigit⟩ := sign_start (.inl h)
  rw [scan, if_neg (by simp [hspace]), if_neg (by simp [hline]), if_neg (by simp),
    if_neg (by simp [hword]), if_neg (by simp [hdigit]), if_pos (by simp [h])]
  rfl

/-- Any other operator stands alone. -/
theorem scan_operator {c : Char} {rest : List Char} (h : isOperator c = true)
    (hcomment : c = '/' → rest.head? ≠ some '/' ∧ rest.head? ≠ some '*')
    (hequal : isBeforeEqual c = true → rest.head? ≠ some '=') :
    scan (c :: rest) = .token .operator [c] rest := by
  obtain ⟨hspace, hline, hword, hdigit⟩ := sign_start (.inr (.inl h))
  rw [scan, if_neg (by simp [hspace]), if_neg, if_neg, if_neg (by simp [hword]),
    if_neg (by simp [hdigit]), if_neg fun heq => hequal heq.1 heq.2, if_pos h]
  · exact fun ⟨hslash, hstar⟩ => (hcomment hslash).2 hstar
  · rintro (hmark | ⟨hslash, hslash'⟩)
    · exact hline hmark
    · exact (hcomment hslash).1 hslash'

/-- A punctuation mark stands alone. -/
theorem scan_punctuation {c : Char} {rest : List Char} (h : isPunctuation c = true) :
    scan (c :: rest) = .token .punctuation [c] rest := by
  obtain ⟨hspace, hline, hword, hdigit⟩ := sign_start (.inr (.inr h))
  have hmem : c ∈ ['(', ')', '\x7b', '\x7d', ',', ';'] := by
    simpa only [isPunctuation, List.contains_eq_mem, decide_eq_true_eq] using h
  have hother : isBeforeEqual c = false ∧ isOperator c = false ∧ c ≠ '/' :=
    (List.forall_iff_forall_mem.1 (by decide) : ∀ d ∈ ['(', ')', '\x7b', '\x7d', ',', ';'],
      isBeforeEqual d = false ∧ isOperator d = false ∧ d ≠ '/') c hmem
  rw [scan, if_neg (by simp [hspace]), if_neg (by simp [hline, hother]), if_neg (by simp [hother]),
    if_neg (by simp [hword]), if_neg (by simp [hdigit]), if_neg (by simp [hother]),
    if_neg (by simp [hother]), if_pos h]

/-- An operator is a character in front of `=`, or one character. -/
theorem spells_operator_iff {text : List Char} : TokenKind.Spells .operator text ↔
    (∃ c, text = [c, '='] ∧ isBeforeEqual c = true) ∨ ∃ c, text = [c] ∧ isOperator c = true := by
  constructor
  · intro h
    obtain ⟨sign, hsign, rfl⟩ : ∃ sign ∈ operatorSigns, text = sign.toList :=
      ⟨_, h, String.toList_ofList.symm⟩
    simp only [operatorSigns, List.mem_cons, List.not_mem_nil, or_false] at hsign
    rcases hsign with rfl | rfl | rfl | rfl | rfl | rfl | rfl | rfl | rfl | rfl | rfl | rfl
    all_goals first
      | exact .inr ⟨_, rfl, by decide⟩
      | exact .inl ⟨_, rfl, by decide⟩
  · rintro (⟨c, rfl, hc⟩ | ⟨c, rfl, hc⟩)
    · have hall : ∀ d ∈ ['=', '!', '<', '>'], String.ofList [d, '='] ∈ operatorSigns :=
        List.forall_iff_forall_mem.1 (by decide)
      exact hall c (by simpa only [isBeforeEqual, List.contains_eq_mem, decide_eq_true_eq] using hc)
    · have hall : ∀ d ∈ ['-', '+', '*', '/', '%', '=', '<', '>'],
          String.ofList [d] ∈ operatorSigns := List.forall_iff_forall_mem.1 (by decide)
      exact hall c (by simpa only [isOperator, List.contains_eq_mem, decide_eq_true_eq] using hc)

/-- Punctuation marks are single characters. -/
theorem spells_punctuation_iff {text : List Char} : TokenKind.Spells .punctuation text ↔
    ∃ c, text = [c] ∧ isPunctuation c = true := by
  constructor
  · intro h
    obtain ⟨mark, hmark, rfl⟩ : ∃ mark ∈ punctuationMarks, text = mark.toList :=
      ⟨_, h, String.toList_ofList.symm⟩
    simp only [punctuationMarks, List.mem_cons, List.not_mem_nil, or_false] at hmark
    rcases hmark with rfl | rfl | rfl | rfl | rfl | rfl <;> exact ⟨_, rfl, by decide⟩
  · rintro ⟨c, rfl, hc⟩
    have hall : ∀ d ∈ ['(', ')', '\x7b', '\x7d', ',', ';'],
        String.ofList [d] ∈ punctuationMarks := List.forall_iff_forall_mem.1 (by decide)
    exact hall c (by simpa only [isPunctuation, List.contains_eq_mem, decide_eq_true_eq] using hc)

/-- Of the operators of one character these may be the front of a longer one. -/
theorem mem_singles_iff {c : Char} (h : isOperator c = true) :
    [c] ∈ [['='], ['<'], ['>']] ↔ isBeforeEqual c = true := by
  have hall : ∀ d ∈ ['-', '+', '*', '/', '%', '=', '<', '>'],
      [d] ∈ [['='], ['<'], ['>']] ↔ isBeforeEqual d = true :=
    List.forall_iff_forall_mem.1 (by decide)
  exact hall c (by simpa only [isOperator, List.contains_eq_mem, decide_eq_true_eq] using h)

/-- A token stands where its kind spells it and it ends. -/
theorem scan_of_spells {kind : TokenKind} {text rest : List Char}
    (hspells : TokenKind.Spells kind text) (hends : TokenKind.Ends kind text rest) :
    scan (text ++ rest) = .token kind text rest := by
  cases kind with
  | identifier =>
    obtain ⟨hkind, c, front, rfl, hstart, hfront⟩ := word_of_spells (.inl rfl) hspells
    rw [scan_word hstart hfront hends, hkind]
  | boolean =>
    obtain ⟨hkind, c, front, rfl, hstart, hfront⟩ := word_of_spells (.inr rfl) hspells
    rw [scan_word hstart hfront hends, hkind]
  | integer =>
    obtain ⟨hne, hdigits⟩ := hspells
    cases text with
    | nil => contradiction
    | cons c front =>
      exact scan_integer (hdigits c List.mem_cons_self)
        (fun d hd => hdigits d (List.mem_cons_of_mem c hd)) hends
  | operator =>
    obtain ⟨hequal, hcomment⟩ := hends
    rcases spells_operator_iff.1 hspells with ⟨c, rfl, hbefore⟩ | ⟨c, rfl, hoperator⟩
    · exact scan_beforeEqual hbefore
    · exact scan_operator hoperator (fun h => hcomment (by rw [h]))
        fun h => hequal ((mem_singles_iff hoperator).2 h)
  | punctuation =>
    obtain ⟨c, rfl, hpunctuation⟩ := spells_punctuation_iff.1 hspells
    exact scan_punctuation hpunctuation
  | endOfInput => exact hspells.elim

/-! ### Endings -/

/-- What the lexer finds where the tokens end. -/
def Ending.scanned : Ending → Scan
  | .finished => .finished
  | .unexpected c _ => .unexpected c
  | .unclosed _ => .unclosed

/-- A character with which nothing starts is in none of the classes that the lexer tries. -/
theorem scan_unexpected {c : Char} {behind : List Char} (h : (Ending.unexpected c behind).Holds) :
    scan (c :: behind) = .unexpected c := by
  obtain ⟨hspace, hmarks, htokens⟩ := h
  have hsingle (kind : TokenKind) : ¬TokenKind.Spells kind [c] := fun hspells =>
    htokens kind [c] hspells (List.prefix_append [c] behind)
  have hword : ¬isWordStart c = true := by
    intro hstart
    by_cases hliteral : String.ofList [c] ∈ booleanWords
    · exact hsingle .boolean hliteral
    · refine hsingle .identifier ?_
      simp only [TokenKind.Spells, isWord, String.toList_ofList, hstart, List.all_nil,
        Bool.and_true, Bool.true_and, Bool.not_eq_true', List.contains_eq_mem,
        decide_eq_false_iff_not]
      exact hliteral
  have hdigit : ¬c.isDigit = true := fun hc => hsingle .integer (by simp [TokenKind.Spells, hc])
  have hequal : ¬(isBeforeEqual c = true ∧ behind.head? = some '=') := by
    rintro ⟨hbefore, hnext⟩
    refine htokens .operator [c, '='] (spells_operator_iff.2 (.inl ⟨c, rfl, hbefore⟩)) ?_
    rw [← cons_tail_of_head? hnext]
    exact List.prefix_append [c, '='] behind.tail
  have hoperator : ¬isOperator c = true := fun hc =>
    hsingle .operator (spells_operator_iff.2 (.inr ⟨c, rfl, hc⟩))
  have hpunctuation : ¬isPunctuation c = true := fun hc =>
    hsingle .punctuation (spells_punctuation_iff.2 ⟨c, rfl, hc⟩)
  -- a slash is an operator, so only the mark of one character is left
  have hslash : c ≠ '/' := by
    rintro rfl
    exact hoperator rfl
  have hline : c ≠ '#' := by
    rintro rfl
    exact hmarks ['#'] (by decide) (List.prefix_append ['#'] behind)
  rw [scan, if_neg (by simp [hspace]), if_neg (by simp [hline, hslash]), if_neg (by simp [hslash]),
    if_neg hword, if_neg hdigit, if_neg hequal, if_neg hoperator, if_neg hpunctuation]

/-- What ends a reading is what the scanner makes of the rest of the text. -/
theorem scan_of_holds {ending : Ending} (h : ending.Holds) : scan ending.text = ending.scanned := by
  cases ending with
  | finished => rw [Ending.text, scan, Ending.scanned]
  | unexpected c behind => exact scan_unexpected h
  | unclosed inside => exact scan_unclosed h

end ExprLang
