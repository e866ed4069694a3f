/-
  LINE SEAMS: a text joined to further lines is tokenized piece by piece.

  A line feed ends every token and every comment of one line, and it makes no sign longer.  So as
  long as the lexer is not inside a block comment, each of its steps in front of a line feed is what
  it is at the end of the text (`scan_append_line`), and by induction over the steps the first text
  is read as if it stood alone (`tokenizeFrom_append_line`).  What comes after is read as if it
  stood alone too, only so many rows further down (`tokenizeFrom_down`).
-/
import ExprLang.Proofs.UniqueReading
import ExprLang.Relabeling

namespace ExprLang

/-! ## One step in front of a line feed -/

/-- A text with further lines behind it. -/
def withLine (text more : List Char) : List Char := text ++ '\n' :: more

/-- Behind the end of the text comes the line feed. -/
@[simp] theorem withLine_nil (more : List Char) : withLine [] more = '\n' :: more := rfl

/-- The text itself is left as it is. -/
@[simp] theorem withLine_cons (c : Char) (text more : List Char) :
    withLine (c :: text) more = c :: withLine text more := rfl

/-- The line feed is seen only at the end of the text. -/
theorem head?_withLine {c : Char} (hc : c ≠ '\n') (text more : List Char) :
    (withLine text more).head? = some c ↔ text.head? = some c := by
  cases text <;> simp [Ne.symm hc]

/-- A text that has a first character loses it alike, with lines behind it and without. -/
theorem tail_withLine {c : Char} {text : List Char} (h : text.head? = some c) (more : List Char) :
    (withLine text more).tail = withLine text.tail more := by
  cases text with
  | nil => simp at h
  | cons d text => rfl

/-- A run of characters of a class ends at the line feed at the latest. -/
theorem span_withLine {p : Char → Bool} (hp : p '\n' = false) (text more : List Char) :
    (withLine text more).takeWhile p = text.takeWhile p ∧
      (withLine text more).dropWhile p = withLine (text.dropWhile p) more := by
  induction text with
  | nil => simp [hp]
  | cons c text ih =>
    rw [withLine_cons]
    by_cases hc : p c = true
    · simp [hc, ih]
    · simp [hc]

/-- A comment that was closed in the text is closed at the same place. -/
theorem closeComment_withLine {text found rest : List Char}
    (h : closeComment text = some (found, rest)) (more : List Char) :
    closeComment (withLine text more) = some (found, withLine rest more) := by
  obtain ⟨inside, hinside, rfl⟩ := leavesOpen_of_closeComment h
  rw [← closeComment_append h, withLine, List.append_assoc]
  exact closeComment_of_leavesOpen hinside

/-- What was found at the front of a text, with further lines behind it. -/
def Scan.withLine (more : List Char) : Scan → Scan
  | .finished => .finished
  | .gap skipped rest => .gap skipped (ExprLang.withLine rest more)
  | .token kind spelling rest => .token kind spelling (ExprLang.withLine rest more)
  | .unexpected c => .unexpected c
  | .unclosed => .unclosed

/-- A step of the lexer finds the same in front of further lines, unless it finds the end of the
    text or an open comment. -/
theorem scan_withLine {text : List Char} (hsome : scan text ≠ .finished)
    (hclosed : scan text ≠ .unclosed) (more : List Char) :
    scan (withLine text more) = (scan text).withLine more := by
  revert hsome hclosed
  fun_cases scan text <;> intro hsome hclosed <;> try contradiction
  all_goals rw [withLine_cons, scan]
  all_goals simp only [head?_withLine (show '/' ≠ '\n' by decide),
    head?_withLine (show '*' ≠ '\n' by decide), head?_withLine (show '=' ≠ '\n' by decide)]
  · -- white space
    rename_i hspace
    rw [if_pos hspace]
    rfl
  · -- a line comment
    rename_i hspace hline
    obtain ⟨htake, hdrop⟩ := span_withLine (p := inLine) rfl _ more
    rw [if_neg hspace, if_pos hline, htake, hdrop]
    rfl
  · -- a block comment
    rename_i hspace hline hstar found behind hfound
    rw [if_neg hspace, if_neg hline, if_pos hstar, tail_withLine hstar.2,
      closeComment_withLine hfound]
    rfl
  · -- a word
    rename_i hspace hline hstar hword
    obtain ⟨htake, hdrop⟩ := span_withLine (p := isWordRest) rfl _ more
    rw [if_neg hspace, if_neg hline, if_neg hstar, if_pos hword, htake, hdrop]
    rfl
  · -- an integer
    rename_i hspace hline hstar hword hdigit
    obtain ⟨htake, hdrop⟩ := span_withLine (p := Char.isDigit) rfl _ more
    rw [if_neg hspace, if_neg hline, if_neg hstar, if_neg hword, if_pos hdigit, htake, hdrop]
    rfl
  · -- an operator of two characters
    rename_i hspace hline hstar hword hdigit hequal
    rw [if_neg hspace, if_neg hline, if_neg hstar, if_neg hword, if_neg hdigit, if_pos hequal,
      tail_withLine hequal.2]
    rfl
  · -- an operator of one character
    rename_i hspace hline hstar hword hdigit hequal hoperator
    rw [if_neg hspace, if_neg hline, if_neg hstar, if_neg hword, if_neg hdigit, if_neg hequal,
      if_pos hoperator]
    rfl
  · -- punctuation
    rename_i hspace hline hstar hword hdigit hequal hoperator hpunctuation
    rw [if_neg hspace, if_neg hline, if_neg hstar, if_neg hword, if_neg hdigit, if_neg hequal,
      if_neg hoperator, if_pos hpunctuation]
    rfl
  · -- a character that starts nothing
    rename_i hspace hline hstar hword hdigit hequal hoperator hpunctuation
    rw [if_neg hspace, if_neg hline, if_neg hstar, if_neg hword, if_neg hdigit, if_neg hequal,
      if_neg hoperator, if_neg hpunctuation]
    rfl

/-- A gap in front of the line feed is the same gap. -/
theorem scan_withLine_gap {text skipped rest : List Char} (h : scan text = .gap skipped rest)
    (more : List Char) : scan (withLine text more) = .gap skipped (withLine rest more) := by
  rw [scan_withLine (by simp [h]) (by simp [h]), h, Scan.withLine]

/-- So is a token: no token goes on behind a line feed. -/
theorem scan_withLine_token {text spelling rest : List Char} {kind : TokenKind}
    (h : scan text = .token kind spelling rest) (more : List Char) :
    scan (withLine text more) = .token kind spelling (withLine rest more) := by
  rw [scan_withLine (by simp [h]) (by simp [h]), h, Scan.withLine]

/-! ## The whole text -/

/-- A text that is all tokens is read as if it stood alone, and what comes behind the line feed as
    if it started there. -/
theorem tokenizeFrom_withLine {here : Position} {text : List Char} {tokens : List Token}
    (h : tokenizeFrom here text = .ok tokens) (more : List Char) :
    tokenizeFrom here (withLine text more)
      = (tokenizeFrom ((here.after text).step '\n') more).map (tokens ++ ·) := by
  fun_induction tokenizeFrom here text generalizing tokens with
  | case1 here text hscan =>
    obtain rfl := Except.ok.inj h
    rw [holds_of_scan.1 hscan, withLine_nil, tokenizeFrom_of_gap (scan_space rfl)]
    exact (id_map (tokenizeFrom (here.step '\n') more)).symm
  | case2 here text skipped rest hscan ih =>
    rw [tokenizeFrom_of_gap (scan_withLine_gap hscan more), ih h, ← (scan_gap hscan).1,
      Position.after_append]
  | case3 here text kind spelling rest hscan ih =>
    rw [tokenizeFrom_of_token (scan_withLine_token hscan more), ← (scan_token hscan).1,
      Position.after_append]
    rcases hrest : tokenizeFrom (here.after spelling) rest with e | others <;> rw [hrest] at h
    · contradiction
    · obtain rfl := Except.ok.inj h
      rw [ih hrest]
      rcases tokenizeFrom (((here.after spelling).after rest).step '\n') more with e | lines <;> rfl
  | case4 => contradiction
  | case5 => contradiction

/-- A character that is not expected is not expected in front of further lines either. -/
theorem tokenizeFrom_withLine_unexpected {here : Position} {text : List Char} {c : Char}
    {loc : Location} (h : tokenizeFrom here text = .error (.unexpectedCharacter c loc))
    (more : List Char) :
    tokenizeFrom here (withLine text more) = .error (.unexpectedCharacter c loc) := by
  fun_induction tokenizeFrom here text with
  | case1 => contradiction
  | case2 here text skipped rest hscan ih =>
    rw [tokenizeFrom_of_gap (scan_withLine_gap hscan more), ih h]
  | case3 here text kind spelling rest hscan ih =>
    rw [tokenizeFrom_of_token (scan_withLine_token hscan more)]
    rcases hrest : tokenizeFrom (here.after spelling) rest with e | others <;> rw [hrest] at h
    · obtain rfl := Except.error.inj h
      rw [ih hrest]
      rfl
    · contradiction
  | case4 here text d hscan =>
    obtain ⟨rfl, rfl⟩ := LexError.unexpectedCharacter.inj (Except.error.inj h)
    have hmore : scan (withLine text more) = .unexpected d := by
      rw [scan_withLine (by simp [hscan]) (by simp [hscan]), hscan, Scan.withLine]
    rw [tokenizeFrom]
    split <;> simp_all
  | case5 => simp at h

/-! ## Further down -/

/-- A text moves a position alike, however many rows further down it begins. -/
theorem Position.after_down (here : Position) (rows : Nat) (text : List Char) :
    (here.down rows).after text = (here.after text).down rows := by
  induction text generalizing here with
  | nil => rfl
  | cons c text ih =>
    have hstep : (here.down rows).step c = (here.step c).down rows := by
      by_cases hfeed : c = '\n'
      · simp [step, down, hfeed, Nat.add_right_comm]
      · simp [step, down, hfeed]
    rw [after_cons, hstep, ih, after_cons]

/-- The tokens of a text, or what is wrong with it, so many rows further down. -/
def downBy (rows : Nat) (result : Except LexError (List Token)) : Except LexError (List Token) :=
  (result.map (List.map (Token.move (Location.down rows)))).mapError
    (LexError.move (Location.down rows))

/-- A text that starts further down gives the same tokens further down. -/
theorem tokenizeFrom_down (here : Position) (rows : Nat) (text : List Char) :
    tokenizeFrom (here.down rows) text = downBy rows (tokenizeFrom here text) := by
  fun_induction tokenizeFrom here text with
  | case1 here text hscan =>
    rw [tokenizeFrom]
    split <;> simp_all [downBy, Except.map, Except.mapError]
  | case2 here text skipped rest hscan ih =>
    rw [tokenizeFrom_of_gap hscan, Position.after_down, ih]
  | case3 here text kind spelling rest hscan ih =>
    rw [tokenizeFrom_of_token hscan, Position.after_down, ih]
    rcases tokenizeFrom (here.after spelling) rest with e | others <;> rfl
  | case4 here text c hscan =>
    rw [tokenizeFrom]
    split <;> simp_all [downBy, Except.map, Except.mapError, LexError.move, Location.down]
  | case5 here text hscan =>
    rw [tokenizeFrom]
    split <;> simp_all [downBy, Except.map, Except.mapError, LexError.move, Location.down]

/-! ## Joined texts -/

/-- Behind a text and a line feed a new line starts, below all lines of the text. -/
theorem step_after_start (text : List Char) :
    (Position.start.after text).step '\n' = Position.start.down (1 + text.count '\n') := by
  have hstart : Position.start.after text = .behind text := Position.after_behind [] text
  rw [hstart]
  simp only [Position.step, Position.behind, Position.down, Position.start, if_true,
    Position.mk.injEq, and_true]
  omega

/-- Two texts joined by a line feed give the tokens of the first and then those of the second, or
    the error of the second, in rows below all those of the first.  A character that is not expected
    in the first is what is wrong with both. -/
theorem tokenize_append_line (a b : String) :
    (∀ ta, tokenize a = .ok ta →
      (∀ tb, tokenize b = .ok tb → tokenize (a ++ "\n" ++ b) =
        .ok (ta ++ tb.map (Token.move (Location.down (1 + a.toList.count '\n'))))) ∧
      ∀ e, tokenize b = .error e → tokenize (a ++ "\n" ++ b) =
        .error (e.move (Location.down (1 + a.toList.count '\n')))) ∧
    ∀ c loc, tokenize a = .error (.unexpectedCharacter c loc) →
      tokenize (a ++ "\n" ++ b) = .error (.unexpectedCharacter c loc) := by
  have hjoined : (a ++ "\n" ++ b).toList = withLine a.toList b.toList := by
    simp [withLine]
  refine ⟨fun ta ha => ?_, fun c loc ha => ?_⟩
  · have hjoin : tokenize (a ++ "\n" ++ b)
        = (downBy (1 + a.toList.count '\n') (tokenize b)).map (ta ++ ·) := by
      rw [tokenize, hjoined, tokenizeFrom_withLine ha, step_after_start, tokenizeFrom_down]
      rfl
    refine ⟨fun tb hb => ?_, fun e hb => ?_⟩
    · rw [hjoin, hb]
      rfl
    · rw [hjoin, hb]
      rfl
  · rw [tokenize, hjoined, tokenizeFrom_withLine_unexpected ha]

/-- A text that ends in a comment behind a sign, two texts to follow it, and a sign that is
    refused whatever follows. -/
theorem tokenize_append_line_minus :
    (∃ ta tb, tokenize "1 /* 2\n3 */ - # 4" = .ok ta ∧ tokenize " x" = .ok tb ∧
      tokenize "1 /* 2\n3 */ - # 4\n x" = .ok (ta ++ tb.map (Token.move (Location.down 2)))) ∧
    tokenize "1 /* 2\n3 */ - # 4\n !" = .error (.unexpectedCharacter '!' (.known ⟨3, 2⟩)) ∧
    tokenize "!\n=" = .error (.unexpectedCharacter '!' (.known ⟨1, 1⟩)) := by
  have hfirst : tokenize "1 /* 2\n3 */ - # 4" = .ok
      [⟨.integer, "1", .known ⟨1, 1⟩⟩, ⟨.operator, "-", .known ⟨2, 6⟩⟩] := by cbv
  have hlast : tokenize " x" = .ok [⟨.identifier, "x", .known ⟨1, 2⟩⟩] := by cbv
  have hwrong : tokenize " !" = .error (.unexpectedCharacter '!' (.known ⟨1, 2⟩)) := by cbv
  have hsign : tokenize "!" = .error (.unexpectedCharacter '!' (.known ⟨1, 1⟩)) := by cbv
  refine ⟨⟨_, _, hfirst, hlast, ?_⟩, ?_, ?_⟩
  · exact ((tokenize_append_line "1 /* 2\n3 */ - # 4" " x").1 _ hfirst).1 _ hlast
  · exact ((tokenize_append_line "1 /* 2\n3 */ - # 4" " !").1 _ hfirst).2 _ hwrong
  · exact (tokenize_append_line "!" "=").2 _ _ hsign

end ExprLang
