/-
  UNIQUE READINGS: every text reads in exactly one way, and the lexer gives what the reading says.

  `readingOf` is the lexer with its gaps kept.  Whatever `scan` finds at the front of a text stands
  there by the lexical grammar, so this is a reading (`readsAs_readingOf`).  Whatever stands there
  by the grammar is what `scan` finds, so there is no other (`readingOf_of_readsAs`).  The lexer
  itself carries a position along instead of the text it has left behind, and comes to the same
  tokens (`tokenizeFrom_behind`).
-/
import ExprLang.Proofs.LexicalGrammar

namespace ExprLang

/-! ## What stands by the grammar where `scan` finds it -/

/-- What the lexer skips belongs to the gap in front of whatever comes next. -/
theorem gap_of_scan {text skipped rest : List Char} (h : scan text = .gap skipped rest)
    {more behind : List Char} (hrest : more ++ behind = rest) (hmore : Gap more behind) :
    Gap (skipped ++ more) behind := by
  revert h
  fun_cases scan text <;> intro h <;> try contradiction
  all_goals simp only [Scan.gap.injEq] at h
  all_goals obtain ⟨rfl, rfl⟩ := h
  · -- white space
    rename_i hspace
    exact .space hspace hmore
  · -- a line comment
    rename_i c text _ hmark
    have hfeed : '\n' ∉ text.takeWhile inLine := fun hmem => by
      simpa [inLine] using List.all_eq_true.1 List.all_takeWhile _ hmem
    have hend : ∀ d, (more ++ behind).head? = some d → d = '\n' := fun d hd => by
      rw [hrest] at hd
      simpa [inLine] using head?_dropWhile hd
    rcases hmark with rfl | ⟨rfl, hslash⟩
    · exact @Gap.line ['#'] _ _ _ (by decide) hfeed hend hmore
    · rw [← cons_tail_of_head? hslash] at hfeed ⊢
      rw [List.takeWhile_cons_of_pos rfl] at hfeed ⊢
      exact @Gap.line ['/', '/'] _ _ _ (by decide) (fun hmem => hfeed (.tail _ hmem)) hend hmore
  · -- a block comment
    rename_i c text _ _ hstar found behind' hfound
    obtain ⟨inside, hinside, rfl⟩ := leavesOpen_of_closeComment hfound
    obtain rfl := hstar.1
    simpa using Gap.block hinside hmore

/-- What the lexer takes for a token is spelled as its kind says, and ends there. -/
theorem spells_of_scan {text spelling rest : List Char} {kind : TokenKind}
    (h : scan text = .token kind spelling rest) :
    TokenKind.Spells kind spelling ∧ TokenKind.Ends kind spelling rest := by
  have hwell := wellSpelt_of_scan h .start
  revert h
  fun_cases scan text <;> intro h <;> try contradiction
  all_goals simp only [Scan.token.injEq] at h
  all_goals obtain ⟨rfl, rfl, rfl⟩ := h
  · -- a word
    rename_i c text _ _ _ _
    have hends : ∀ d, (text.dropWhile isWordRest).head? = some d → isWordRest d = false :=
      fun d hd => head?_dropWhile hd
    rcases wordKind_cases (String.ofList (c :: text.takeWhile isWordRest)) with
      ⟨hkind, hmem⟩ | hkind
    · rw [hkind]
      exact ⟨hmem, hends⟩
    · rw [hkind]
      exact ⟨hwell.identifier hkind, hends⟩
  · -- an integer
    obtain ⟨hne, hdigits⟩ := hwell.integer rfl
    simp only [String.toList_ofList] at hne hdigits
    exact ⟨⟨hne, List.all_eq_true.1 hdigits⟩, fun d hd => head?_dropWhile hd⟩
  · -- an operator of two characters
    rename_i c text _ _ _ _ _ hequal
    exact ⟨spells_operator_iff.2 (.inl ⟨c, rfl, hequal.1⟩), by simp, by simp⟩
  · -- an operator of one character
    rename_i c _ _ hline hstar _ _ hequal hoperator
    refine ⟨spells_operator_iff.2 (.inr ⟨c, rfl, hoperator⟩), fun hmem hnext => ?_, ?_⟩
    · exact hequal ⟨(mem_singles_iff hoperator).1 hmem, hnext⟩
    · intro hslash
      obtain rfl : c = '/' := by simpa using hslash
      exact ⟨fun hnext => hline (.inr ⟨rfl, hnext⟩), fun hnext => hstar ⟨rfl, hnext⟩⟩
  · -- punctuation
    rename_i c _ _ _ _ _ _ _ _ hpunctuation
    exact ⟨spells_punctuation_iff.2 ⟨c, rfl, hpunctuation⟩, trivial⟩

/-- A character that the lexer does not expect starts nothing. -/
theorem holds_of_scan_unexpected {text : List Char} {c : Char} (h : scan text = .unexpected c) :
    ∃ behind, text = c :: behind ∧ (Ending.unexpected c behind).Holds := by
  revert h
  fun_cases scan text <;> intro h <;> try contradiction
  rename_i d behind hspace hline _ hword hdigit hequal hoperator hpunctuation
  obtain rfl := Scan.unexpected.inj h
  refine ⟨behind, rfl, by simpa using hspace, ?_, ?_⟩
  · intro mark hmark hprefix
    simp only [lineMarks, List.mem_cons, List.not_mem_nil, or_false] at hmark
    rcases hmark with rfl | rfl
    · obtain ⟨rest, hrest⟩ := hprefix
      simp only [List.cons_append, List.nil_append, List.cons.injEq] at hrest
      obtain ⟨rfl, rfl⟩ := hrest
      exact hline (.inr ⟨rfl, rfl⟩)
    · obtain ⟨rfl, -⟩ := List.cons_prefix_cons.1 hprefix
      exact hline (.inl rfl)
  · intro kind text hspells hprefix
    -- the first character of a token is in one of the classes that the lexer has tried
    cases kind with
    | identifier =>
      obtain ⟨-, c, rest, rfl, hstart, -⟩ := word_of_spells (.inl rfl) hspells
      obtain ⟨rfl, -⟩ := List.cons_prefix_cons.1 hprefix
      exact hword hstart
    | boolean =>
      obtain ⟨-, c, rest, rfl, hstart, -⟩ := word_of_spells (.inr rfl) hspells
      obtain ⟨rfl, -⟩ := List.cons_prefix_cons.1 hprefix
      exact hword hstart
    | integer =>
      obtain ⟨hne, hdigits⟩ := hspells
      cases text with
      | nil => contradiction
      | cons c rest =>
        obtain ⟨rfl, -⟩ := List.cons_prefix_cons.1 hprefix
        exact hdigit (hdigits c List.mem_cons_self)
    | operator =>
      rcases spells_operator_iff.1 hspells with ⟨c, rfl, hc⟩ | ⟨c, rfl, hc⟩
      · obtain ⟨rfl, rest, rfl⟩ := List.cons_prefix_cons.1 hprefix
        exact hequal ⟨hc, rfl⟩
      · obtain ⟨rfl, -⟩ := List.cons_prefix_cons.1 hprefix
        exact hoperator hc
    | punctuation =>
      obtain ⟨c, rfl, hc⟩ := spells_punctuation_iff.1 hspells
      obtain ⟨rfl, -⟩ := List.cons_prefix_cons.1 hprefix
      exact hpunctuation hc
    | endOfInput => exact hspells

/-- Where the lexer stops, the tokens end. -/
theorem holds_of_scan {text : List Char} :
    (scan text = .finished → text = []) ∧
    (∀ c, scan text = .unexpected c → ∃ behind, text = c :: behind ∧
      (Ending.unexpected c behind).Holds) ∧
    (scan text = .unclosed → ∃ inside, text = '/' :: '*' :: inside ∧
      (Ending.unclosed inside).Holds) := by
  refine ⟨?_, fun c => holds_of_scan_unexpected, ?_⟩
  · fun_cases scan text <;> simp
  · fun_cases scan text <;> intro h <;> try contradiction
    rename_i c rest _ _ hstar hopen
    obtain ⟨rfl, hnext⟩ := hstar
    exact ⟨rest.tail, by rw [cons_tail_of_head? hnext], closeComment_eq_none_iff.1 hopen⟩

/-! ## The reading that the lexer makes -/

/-- A reading with more skipped in front of it. -/
def Reading.skip (skipped : List Char) (r : Reading) : Reading :=
  match r.lexemes with
  | [] => { r with gap := skipped ++ r.gap }
  | l :: lexemes => { r with lexemes := { l with gap := skipped ++ l.gap } :: lexemes }

/-- A reading with one more token in front of it. -/
def Reading.push (kind : TokenKind) (text : List Char) (r : Reading) : Reading :=
  { r with lexemes := ⟨[], kind, text⟩ :: r.lexemes }

/-- The reading of a text: the pieces that `scan` finds, one after the other. -/
def readingOf (text : List Char) : Reading :=
  match _ : scan text with
  | .finished => ⟨[], [], .finished⟩
  | .gap skipped rest => (readingOf rest).skip skipped
  | .token kind spelling rest => (readingOf rest).push kind spelling
  | .unexpected c => ⟨[], [], .unexpected c text.tail⟩
  | .unclosed => ⟨[], [], .unclosed text.tail.tail⟩
termination_by text.length
decreasing_by
  · exact length_lt_of_append (scan_gap (by assumption))
  · exact length_lt_of_append (scan_token (by assumption))

/-- The reading of a text that begins with a gap is that of the rest, with the gap in front. -/
theorem readingOf_of_gap {text skipped rest : List Char} (h : scan text = .gap skipped rest) :
    readingOf text = (readingOf rest).skip skipped := by
  rw [readingOf]
  split <;> simp_all

/-- The reading of a text that begins with a token has that token in front. -/
theorem readingOf_of_token {text spelling rest : List Char} {kind : TokenKind}
    (h : scan text = .token kind spelling rest) :
    readingOf text = (readingOf rest).push kind spelling := by
  rw [readingOf]
  split <;> simp_all

/-- Where the text ends or cannot go on, its reading has no tokens. -/
theorem readingOf_of_holds {ending : Ending} (h : ending.Holds) :
    readingOf ending.text = ⟨[], [], ending⟩ := by
  have hscan := scan_of_holds h
  rw [readingOf]
  cases ending <;> split <;> simp_all [Ending.scanned, Ending.text]

@[simp] theorem Reading.skip_nil (r : Reading) : r.skip [] = r := by
  obtain ⟨lexemes, gap, ending⟩ := r
  cases lexemes <;> rfl

/-- Two gaps in a row are one. -/
theorem Reading.skip_skip (front back : List Char) (r : Reading) :
    (r.skip back).skip front = r.skip (front ++ back) := by
  obtain ⟨lexemes, gap, ending⟩ := r
  cases lexemes <;> simp [skip]

/-- In front of a gap the lexer skips just that. -/
theorem readingOf_gap {gap rest : List Char} (h : Gap gap rest) :
    readingOf (gap ++ rest) = (readingOf rest).skip gap := by
  induction h with
  | nothing => simp
  | space hspace _ ih =>
    rw [List.cons_append, readingOf_of_gap (scan_space hspace), ih, Reading.skip_skip]
    rfl
  | line hmark hline hend _ ih =>
    rw [List.append_assoc, readingOf_of_gap (scan_line hmark hline hend), ih, Reading.skip_skip]
  | block hfirst _ ih =>
    rw [List.append_assoc, readingOf_of_gap (scan_block hfirst), ih, Reading.skip_skip]

/-- A text reads in no other way than the lexer reads it. -/
theorem readingOf_of_readsAs {text : List Char} {r : Reading} (h : ReadsAs text r) :
    readingOf text = r := by
  induction h with
  | ending hgap hending =>
    rw [readingOf_gap hgap, readingOf_of_holds hending]
    simp [Reading.skip]
  | token hgap hspells hends _ ih =>
    rw [readingOf_gap hgap, readingOf_of_token (scan_of_spells hspells hends), ih]
    simp [Reading.skip, Reading.push]

/-- A gap may be put in front of a reading, provided it joins the gap that stands there. -/
theorem readsAs_skip {skipped rest : List Char} {r : Reading} (h : ReadsAs rest r)
    (hgap : ∀ more behind, more ++ behind = rest → Gap more behind → Gap (skipped ++ more) behind) :
    ReadsAs (skipped ++ rest) (r.skip skipped) := by
  cases h with
  | ending hmore hending =>
    rw [← List.append_assoc]
    exact .ending (hgap _ _ rfl hmore) hending
  | token hmore hspells hends hrest =>
    rw [← List.append_assoc]
    exact .token (hgap _ _ rfl hmore) hspells hends hrest

/-- A text reads as the lexer reads it. -/
theorem readsAs_readingOf (text : List Char) : ReadsAs text (readingOf text) := by
  fun_induction readingOf text with
  | case1 text hscan =>
    rw [holds_of_scan.1 hscan]
    exact @ReadsAs.ending _ .finished .nothing trivial
  | case2 text skipped rest hscan ih =>
    rw [← (scan_gap hscan).1]
    exact readsAs_skip ih fun more behind => gap_of_scan hscan
  | case3 text kind spelling rest hscan ih =>
    rw [← (scan_token hscan).1]
    obtain ⟨hspells, hends⟩ := spells_of_scan hscan
    exact .token .nothing hspells hends ih
  | case4 text c hscan =>
    obtain ⟨behind, rfl, hholds⟩ := holds_of_scan.2.1 c hscan
    exact @ReadsAs.ending _ (.unexpected c behind) .nothing hholds
  | case5 text hscan =>
    obtain ⟨inside, rfl, hholds⟩ := holds_of_scan.2.2 hscan
    exact @ReadsAs.ending _ (.unclosed inside) .nothing hholds

/-! ## The tokens of the reading -/

/-- Over a gap the lexer counts on and takes no token. -/
theorem tokenizeFrom_of_gap {text skipped rest : List Char} {here : Position}
    (h : scan text = .gap skipped rest) :
    tokenizeFrom here text = tokenizeFrom (here.after skipped) rest := by
  rw [tokenizeFrom]
  split <;> simp_all

/-- A token is listed with its spelling and with the position in front of it. -/
theorem tokenizeFrom_of_token {text spelling rest : List Char} {kind : TokenKind}
    {here : Position} (h : scan text = .token kind spelling rest) :
    tokenizeFrom here text = (tokenizeFrom (here.after spelling) rest).map
      (⟨kind, String.ofList spelling, .known here⟩ :: ·) := by
  rw [tokenizeFrom]
  split <;> simp_all

/-- A gap in front of a reading counts as text that was passed. -/
theorem resultBehind_skip (front skipped : List Char) (r : Reading) :
    (r.skip skipped).resultBehind front = r.resultBehind (front ++ skipped) := by
  obtain ⟨lexemes, gap, ending⟩ := r
  cases lexemes <;> cases ending <;>
    simp [Reading.skip, Reading.resultBehind, tokensBehind, lexemesText]

/-- The first token of a reading stands where the text in front of it ends. -/
theorem resultBehind_push (front text : List Char) (kind : TokenKind) (r : Reading) :
    (r.push kind text).resultBehind front = (r.resultBehind (front ++ text)).map
      (⟨kind, String.ofList text, .known (.behind front)⟩ :: ·) := by
  obtain ⟨lexemes, gap, ending⟩ := r
  cases ending <;>
    simp [Reading.push, Reading.resultBehind, tokensBehind, lexemesText, Except.map]

/-- The lexer gives what the reading says. -/
theorem tokenizeFrom_behind (front text : List Char) :
    tokenizeFrom (.behind front) text = (readingOf text).resultBehind front := by
  fun_induction readingOf text generalizing front with
  | case1 text hscan =>
    rw [tokenizeFrom]
    split <;> simp_all [Reading.resultBehind, tokensBehind]
  | case2 text skipped rest hscan ih =>
    rw [tokenizeFrom_of_gap hscan, Position.after_behind, ih, resultBehind_skip]
  | case3 text kind spelling rest hscan ih =>
    rw [tokenizeFrom_of_token hscan, Position.after_behind, ih, resultBehind_push]
  | case4 text c hscan =>
    rw [tokenizeFrom]
    split <;> simp_all [Reading.resultBehind, lexemesText]
  | case5 text hscan =>
    rw [tokenizeFrom]
    split <;> simp_all [Reading.resultBehind, lexemesText]

/-- Every text has exactly one reading, and its tokens, or the character or comment at which they
    end, are those of the reading: a text is accepted just when its reading goes on to its end. -/
theorem tokenize_eq_result (source : String) :
    ∃ reading, ReadsAs source.toList reading ∧
      (∀ other, ReadsAs source.toList other → other = reading) ∧
      tokenize source = reading.result := by
  refine ⟨readingOf source.toList, readsAs_readingOf _, fun other hother => ?_, ?_⟩
  · exact (readingOf_of_readsAs hother).symm
  · exact tokenizeFrom_behind [] source.toList

end ExprLang
