/-
  POINTED REPORTS: whether a report points at the error that it is about.

  A report reads the span of its location as numbers of characters, but the span counts bytes; and
  it takes more characters for line ends than locations do.  So it names the right place exactly
  when neither makes a difference in front of the error: the text there is ASCII, and its lines end
  by line feeds (`Report.headedBy_iff`).  `report_misses_error` is the other case: one accented
  letter in a comment moves the report to the right of its error.

  Behind such a text the label hangs on the character of the error and on no other one, if this
  character is ASCII too (`Report.pointsAt_of_plain`).  That is a count of cells: the cells of the
  row with the mark are as many as those in which the line in front is drawn, tabs included
  (`Report.cells_under`).
-/
import Mathlib
import ExprLang.Proofs.ErrorPlaces
import ExprLang.Proofs.ReportLines

namespace ExprLang

/-! ## Plain text -/

/-- ASCII text whose lines end by line feeds. -/
structure Plain (text : List Char) : Prop where
  ascii : ∀ c ∈ text, c.toNat < 128
  feeds : EndsByFeeds text

instance : DecidablePred Plain := fun text =>
  -- a test of each character of the text, not of all characters
  decidable_of_iff (text.all (·.toNat < 128) = true ∧ EndsByFeeds text)
    ⟨fun h => ⟨by simpa using h.1, h.2⟩, fun h => ⟨by simpa using h.ascii, h.feeds⟩⟩

/-- ASCII is what UTF-8 has one byte for. -/
theorem utf8Size_eq_one_iff_toNat {c : Char} : c.utf8Size = 1 ↔ c.toNat < 128 := by
  rw [Char.utf8Size_eq_one_iff, UInt32.le_iff_toNat_le, Nat.lt_succ_iff]
  rfl

/-- So bytes and characters are counted alike in ASCII text, and in no other. -/
theorem byteLength_eq_length_of_ascii {text : List Char} :
    byteLength text = text.length ↔ ∀ c ∈ text, c.toNat < 128 := by
  simp only [byteLength_eq_length_iff, utf8Size_eq_one_iff_toNat]

/-! ## How ASCII text is drawn -/

/-- A table that begins above ASCII has no entry for it. -/
theorem inRanges_eq_false {table : List (Nat × Nat)} (h : ∀ range ∈ table, 128 ≤ range.1)
    {c : Char} (hc : c.toNat < 128) : inRanges table c = false := by
  rw [inRanges, List.any_eq_false]
  intro range hrange
  have := h range hrange
  simp only [Bool.and_eq_true, decide_eq_true_eq]
  omega

/-- No table of characters that are drawn in a special way goes down to ASCII. -/
theorem charWidth_of_ascii {c : Char} (hc : c.toNat < 128) : charWidth c = 1 := by
  have hzero : isZeroWidth c = false := by
    simp only [isZeroWidth, Bool.or_eq_false_iff]
    refine ⟨⟨⟨?_, ?_⟩, ?_⟩, ?_⟩ <;> exact inRanges_eq_false (by decide +kernel) hc
  have hwide : inRanges wideRanges c = false := inRanges_eq_false (by decide +kernel) hc
  have hkhmer : c ≠ '\u17d8' := by
    rintro rfl
    exact absurd hc (by decide)
  simp [charWidth, hzero, hwide, hkhmer]

/-- The vertical tab is the only blank ASCII character that is not white space of the language. -/
theorem not_isBlank {c : Char} (hc : c.toNat < 128) (hspace : isSpace c = false)
    (htab : c ≠ '\x0b') : isBlank c = false := by
  have hcode : ∀ n, c ≠ Char.ofNat n → c.toNat ≠ n := fun n hne h => hne (h ▸ c.ofNat_toNat.symm)
  simp only [isSpace, List.contains_eq_mem, List.mem_cons, List.not_mem_nil, or_false,
    decide_eq_false_iff_not, not_or] at hspace
  obtain ⟨hblank, htab', hreturn, hfeed, hform⟩ := hspace
  have h32 := hcode 32 hblank
  have h9 := hcode 9 htab'
  have h13 := hcode 13 hreturn
  have h10 := hcode 10 hfeed
  have h12 := hcode 12 hform
  have h11 := hcode 11 htab
  simp only [isBlank, inRanges, blankRanges, List.any_cons, List.any_nil, Bool.or_false,
    Bool.or_eq_false_iff, Bool.and_eq_false_imp, decide_eq_true_eq, decide_eq_false_iff_not]
  omega

namespace Report

/-- Trimming a line does not reach past a character that can be seen. -/
theorem trimEnd_append_cons {c : Char} (hc : isBlank c = false) (front back : List Char) :
    trimEnd (front ++ c :: back) = front ++ c :: trimEnd back := by
  have hkeep : (c :: front.reverse).dropWhile isBlank = c :: front.reverse :=
    List.dropWhile_cons_of_neg (by simp [hc])
  simp only [trimEnd, List.reverse_append, List.reverse_cons, List.append_assoc,
    List.singleton_append, List.dropWhile_append, hkeep]
  split
  · rename_i hempty
    simp [List.isEmpty_iff.1 hempty]
  · simp

/-- A character takes as many cells as it is drawn in; this would be wrong for wide characters. -/
theorem length_drawChar {c : Char} (hc : c.toNat < 128) (column : Nat) :
    (drawChar c column).length = drawnWidth c column := by
  unfold drawChar
  split
  · rw [List.length_replicate]
  · rename_i hblank
    have htab : c ≠ '\t' := by
      rintro rfl
      exact hblank (by decide)
    rw [drawnWidth, if_neg htab, if_neg hblank, charWidth_of_ascii hc, List.length_singleton]

/-- A line is drawn piece by piece, from the column where the piece before has ended. -/
theorem drawFrom_append (column : Nat) (front back : List Char) :
    drawFrom column (front ++ back) =
      drawFrom column front ++ drawFrom (column + front.length) back := by
  induction front generalizing column with
  | nil => rfl
  | cons c front ih =>
    simp only [List.cons_append, drawFrom, ih, List.append_assoc, List.length_cons, Nat.add_assoc,
      Nat.add_comm 1]

/-- A column that is filled with one character all through. -/
theorem cells_self (width : Nat) (filler : Char) :
    cells width filler filler = List.replicate width filler := by
  cases width <;> rfl

/-- The width of a column is that of the character that stands there. -/
theorem widthAt_append_cons (front : List Char) (c : Char) (back : List Char) :
    widthAt (front ++ c :: back) front.length = drawnWidth c front.length := by
  simp [widthAt]

/-- The cells under a text are as many as the cells that it is drawn in. -/
theorem cells_under {front : List Char} (hascii : ∀ c ∈ front, c.toNat < 128) (back : List Char)
    (filler : Char) :
    (List.range front.length).flatMap
        (fun column => List.replicate (widthAt (front ++ back) column) filler) =
      List.replicate (drawFrom 0 front).length filler := by
  induction front using List.reverseRecOn generalizing back with
  | nil => rfl
  | append_singleton front c ih =>
    have hfront := ih (fun d hd => hascii d (List.mem_append_left _ hd)) (c :: back)
    have hc : c.toNat < 128 := hascii c (by simp)
    rw [List.length_append, List.length_singleton, List.range_succ, List.flatMap_append,
      List.append_assoc, List.singleton_append, hfront, List.flatMap_singleton,
      widthAt_append_cons, drawFrom_append, List.length_append, Nat.zero_add, drawFrom, drawFrom,
      List.append_nil, length_drawChar hc, List.replicate_add]

/-- A row whose sign stands under the character behind `front`. -/
theorem row_eq {mark : Mark} {front : List Char} (hascii : ∀ c ∈ front, c.toNat < 128)
    {back : List Char} (hbehind : mark.behind = front.length + 1) {column : Nat → List Char}
    {sign filler : Char}
    (hfront : ∀ i < front.length, column i = List.replicate (widthAt (front ++ back) i) ' ')
    (hsign : column front.length = [sign])
    (hback : ∀ i, front.length < i →
      column i = List.replicate (widthAt (front ++ back) i) filler) :
    mark.row column = spaces (drawFrom 0 front).length ++ String.ofList (sign ::
      List.replicate (widthAt (front ++ back) (front.length + 1) +
        widthAt (front ++ back) (front.length + 2)) filler) := by
  have hcells : (List.range front.length).flatMap column =
      List.replicate (drawFrom 0 front).length ' ' := by
    rw [← cells_under hascii back]
    exact List.flatMap_congr fun i hi => hfront i (List.mem_range.1 hi)
  rw [Mark.row, hbehind, List.range_succ, List.range_succ, List.range_succ, spaces,
    ← String.ofList_append]
  simp only [List.flatMap_append, List.flatMap_cons, List.flatMap_nil, hcells, hsign,
    hback _ (Nat.lt_add_one _), hback (front.length + 1 + 1) (by omega), List.append_assoc,
    List.append_nil, List.replicate_add, List.cons_append, List.nil_append]

/-- The mark of the character behind `front`. -/
def markBehind (front : List Char) : Mark := ⟨front.length, front.length + 1, front.length⟩

/-- A mark of one character covers one column. -/
theorem covers_markBehind (front : List Char) (column : Nat) :
    (markBehind front).covers column = decide (column = front.length) := by
  rw [Bool.eq_iff_iff, Mark.covers, Bool.and_eq_true, decide_eq_true_eq, decide_eq_true_eq,
    decide_eq_true_eq]
  show front.length ≤ column ∧ column < front.length + 1 ↔ column = front.length
  omega

section Quoted

variable {front : List Char} (hascii : ∀ c ∈ front, c.toNat < 128) {c : Char}
  (hc : c.toNat < 128) (hblank : isBlank c = false) (back : List Char)

include hc hblank in
/-- A visible ASCII character takes one cell. -/
theorem widthAt_visible : widthAt (front ++ c :: back) front.length = 1 := by
  have htab : c ≠ '\t' := by
    rintro rfl
    exact absurd hblank (by decide)
  simp [widthAt_append_cons, drawnWidth, htab, hblank, charWidth_of_ascii hc]

include hascii hc hblank

/-- The underline is a single sign, and the label hangs on it. -/
theorem row_underlineAt :
    (markBehind front).row ((markBehind front).underlineAt (front ++ c :: back)) =
      spaces (drawFrom 0 front).length ++ String.ofList ('┬' ::
        List.replicate (widthAt (front ++ c :: back) (front.length + 1) +
          widthAt (front ++ c :: back) (front.length + 2)) ' ') := by
  have helsewhere : ∀ i, i ≠ front.length → (markBehind front).underlineAt (front ++ c :: back) i =
      List.replicate (widthAt (front ++ c :: back) i) ' ' := fun i hi => by
    have hmiddle : i ≠ (markBehind front).middle := hi
    simp only [Mark.underlineAt, covers_markBehind, hi, hmiddle, decide_false, if_false, cells_self,
      Bool.false_eq_true]
  refine row_eq hascii rfl (fun i hi => helsewhere i hi.ne) ?_ fun i hi => helsewhere i hi.ne'
  simp only [Mark.underlineAt, covers_markBehind, widthAt_visible hc hblank, decide_true, if_true]
  rw [if_pos (show front.length = (markBehind front).middle from rfl)]
  rfl

/-- The arm of the label turns off below the character. -/
theorem row_armAt :
    (markBehind front).row ((markBehind front).armAt (front ++ c :: back)) =
      spaces (drawFrom 0 front).length ++ String.ofList ('╰' ::
        List.replicate (widthAt (front ++ c :: back) (front.length + 1) +
          widthAt (front ++ c :: back) (front.length + 2)) '─') := by
  refine row_eq hascii rfl (fun i hi => ?_) ?_ fun i hi => ?_
  · have hmiddle : i ≠ (markBehind front).middle := hi.ne
    have hleft : ¬(markBehind front).middle ≤ i := Nat.not_le.2 hi
    simp only [Mark.armAt, if_neg hmiddle, if_neg hleft, cells_self]
  · simp only [Mark.armAt, widthAt_visible hc hblank]
    rw [if_pos (show front.length = (markBehind front).middle from rfl)]
    rfl
  · have hmiddle : i ≠ (markBehind front).middle := hi.ne'
    have hright : (markBehind front).middle ≤ i := hi.le
    simp only [Mark.armAt, if_neg hmiddle, if_pos hright, cells_self]

end Quoted

/-! ## What a report shows -/

/-- The row that names the place of a report, as far to the right as the number of the last quoted
    line pushes it. -/
def headerRow (last : Nat) (file : String) (row column : Nat) : String :=
  spaces ((toString last).length + 2) ++ "╭─[ " ++ file ++ ":" ++ toString row ++ ":" ++
    toString column ++ " ]\n"

/-- A report names a location behind its heading.  The lines that it quotes begin with the one of
    the location. -/
def HeadedBy (r : Report) (file source : String) (loc : Location) : Prop :=
  ∃ last rows, loc.position.row ≤ last ∧ r.render file source =
    r.heading ++ (headerRow last file loc.position.row loc.position.column ++ rows)

/-- A line with a character behind `shown`, and a label below that hangs on this one character. -/
def markedLine (label : String) (row : Nat) (shown : List Char) (c : Char) (behind : List Char)
    (width : Nat) : String :=
  let number := toString row
  let margin := spaces (number.length + 2) ++ "│ "
  let blank := spaces (drawFrom 0 shown).length
  " " ++ number ++ " │ " ++ String.ofList (drawFrom 0 shown ++ c :: behind) ++ "\n"
    ++ margin ++ (blank ++ String.ofList ('┬' :: List.replicate width ' ')) ++ "\n"
    ++ margin ++ (blank ++ String.ofList ('╰' :: List.replicate width '─')) ++ " " ++ label ++ "\n"

/-- A report names a location and underlines the one character that stands there, behind the
    characters `shown` of its line. -/
def PointsAt (r : Report) (file source : String) (loc : Location) (shown : List Char) (c : Char) :
    Prop :=
  ∃ behind width rows, r.render file source =
    r.heading ++ (headerRow loc.position.row file loc.position.row loc.position.column
      ++ (spaces ((toString loc.position.row).length + 2) ++ "│\n"
      ++ markedLine r.label loc.position.row shown c behind width ++ rows))

/-- A report goes on with the row that names its place, a margin and the quotation. -/
theorem body_eq (r : Report) (file : String) (line last : Line) (span : Span) :
    ∃ rows, r.body file line last span =
      headerRow last.number file line.number (span.start - line.start + 1) ++
        (spaces ((toString last.number).length + 2) ++ "│\n" ++ quotation r line last span
          ++ rows) := by
  simp only [body, headerRow, String.append_assoc]
  exact ⟨_, rfl⟩

/-- A run of characters of a class is determined by the text that it starts. -/
theorem span_inj {p : Char → Bool} {front front' rest rest' : List Char}
    (h : front ++ rest = front' ++ rest') (hfront : ∀ c ∈ front, p c = true)
    (hfront' : ∀ c ∈ front', p c = true) (hrest : ∀ c, rest.head? = some c → p c = false)
    (hrest' : ∀ c, rest'.head? = some c → p c = false) : front = front' ∧ rest = rest' := by
  obtain ⟨htake, hdrop⟩ := span_append hfront hrest
  obtain ⟨htake', hdrop'⟩ := span_append hfront' hrest'
  exact ⟨htake.symm.trans (h ▸ htake'), hdrop.symm.trans (h ▸ hdrop')⟩

/-- A number ends where its digits do. -/
theorem toString_span_inj {m n : Nat} {c d : Char} {rest rest' : List Char}
    (h : (toString m).toList ++ c :: rest = (toString n).toList ++ d :: rest')
    (hc : c.isDigit = false) (hd : d.isDigit = false) : m = n ∧ c :: rest = d :: rest' := by
  have hdigits : ∀ k : Nat, ∀ c ∈ (toString k).toList, c.isDigit = true := by
    intro k c hc
    rw [Nat.toString_eq_ofList_toDigits, String.toList_ofList] at hc
    exact Nat.isDigit_of_mem_toDigits (by decide) (by decide) hc
  obtain ⟨hnumber, hrest⟩ := span_inj h (hdigits m) (hdigits n) (by simpa using hc)
    (by simpa using hd)
  exact ⟨Nat.repr_inj.1 (String.toList_inj.1 hnumber), hrest⟩

/-- The place can be read off the row. -/
theorem headerRow_inj {last last' : Nat} {file : String} {row column row' column' : Nat}
    {rows rows' : String}
    (h : headerRow last file row column ++ rows = headerRow last' file row' column' ++ rows') :
    row = row' ∧ column = column' := by
  have hlist := congrArg String.toList h
  simp only [headerRow, spaces, String.toList_append, String.toList_ofList, List.append_assoc]
    at hlist
  obtain ⟨-, hfile⟩ := span_inj (p := (· = ' ')) hlist (by simp) (by simp) (by simp) (by simp)
  have hrow := List.append_cancel_left (List.append_cancel_left (List.append_cancel_left hfile))
  obtain ⟨hrow, hcolumn⟩ := toString_span_inj (c := ':') (d := ':') hrow (by decide) (by decide)
  obtain ⟨hcolumn, -⟩ := toString_span_inj (c := ' ') (d := ' ') (List.cons.inj hcolumn).2
    (by decide) (by decide)
  exact ⟨hrow, hcolumn⟩

/-- The quotation of a line under whose character the mark stands. -/
theorem quotation_eq {r : Report} {line : Line} {front : List Char} {c : Char}
    (hreaches : line.Reaches front c) (hascii : ∀ d ∈ front, d.toNat < 128) (hc : c.toNat < 128)
    (hblank : isBlank c = false) :
    ∃ behind width, quotation r line line ⟨front.length, front.length + 1⟩ =
      markedLine r.label line.number (lastLine front) c behind width := by
  obtain ⟨more, htext⟩ := hreaches.text
  have hstart := hreaches.start
  have hstop : ¬line.stop < front.length + 1 := by
    rw [Line.stop, htext, List.length_append, List.length_cons]
    omega
  have hlast : ∀ d ∈ lastLine front, d.toNat < 128 := fun d hd => hascii d (mem_of_mem_lastLine hd)
  have hmark : (⟨front.length - line.start, front.length + 1 - line.start,
      (front.length + (front.length + 1)) / 2 - line.start⟩ : Mark) =
        markBehind (lastLine front) := by
    rw [markBehind, Mark.mk.injEq]
    omega
  have hdrawn : drawFrom 0 (lastLine front ++ c :: trimEnd more) =
      drawFrom 0 (lastLine front) ++
        c :: drawFrom ((lastLine front).length + 1) (trimEnd more) := by
    rw [drawFrom_append, Nat.zero_add, drawFrom, drawChar, if_neg (by simp [hblank])]
    rfl
  simp only [quotation, if_true, markedRows, if_neg hstop, htext, trimEnd_append_cons hblank,
    hmark, hdrawn, row_underlineAt hlast hc hblank, row_armAt hlast hc hblank]
  exact ⟨_, _, rfl⟩

section Pointing

variable {r : Report} {file source : String} {front back : List Char} {c : Char}

/-- A span that starts and ends in lines of the text is drawn. -/
theorem render_of_lines {line last : Line} {span : Span}
    (hspan : r.location.spanIn source.toList = span)
    (hline : Line.at? source.toList span.start = some line)
    (hlast : Line.at? source.toList (max span.start (span.stop - 1)) = some last) :
    r.render file source = r.heading ++ r.body file line last span := by
  subst hspan
  simp only [render, hline, hlast]

/-- A span that starts in a line and goes not past the text ends in a line as well. -/
theorem exists_last {line : Line} {span : Span}
    (hline : Line.at? source.toList span.start = some line)
    (hstop : span.stop - 1 ≤ source.toList.length) :
    ∃ last, Line.at? source.toList (max span.start (span.stop - 1)) = some last := by
  have hstart := Line.isSome_at? source.toList span.start
  rw [hline, Option.isSome_some, eq_comm, decide_eq_true_eq] at hstart
  rw [← Option.isSome_iff_exists, Line.isSome_at?, decide_eq_true_eq]
  exact Nat.max_le.2 ⟨hstart, hstop⟩

/-- A report names the place in the line where its span starts. -/
theorem headedBy_of_line {line : Line} {span : Span} {loc : Location}
    (hspan : r.location.spanIn source.toList = span)
    (hline : Line.at? source.toList span.start = some line)
    (hstop : span.stop - 1 ≤ source.toList.length)
    (hplace : loc.position = ⟨line.number, span.start - line.start + 1⟩) :
    r.HeadedBy file source loc := by
  obtain ⟨last, hlast⟩ := exists_last hline hstop
  obtain ⟨rows, hbody⟩ := body_eq r file line last span
  rw [HeadedBy, render_of_lines hspan hline hlast, hbody, hplace]
  exact ⟨_, _, Line.number_le_of_at? (Nat.le_max_left ..) hline hlast, rfl⟩

/-- A report that names a place has found a line there. -/
theorem line_of_headedBy {span : Span} {loc : Location}
    (hspan : r.location.spanIn source.toList = span) (h : r.HeadedBy file source loc) :
    span.stop - 1 ≤ source.toList.length ∧ ∃ line,
      Line.at? source.toList span.start = some line ∧
      loc.position = ⟨line.number, span.start - line.start + 1⟩ := by
  subst hspan
  obtain ⟨lastNumber, rows, -, hrender⟩ := h
  -- a report without a place is its heading alone, and no header follows
  have hheading : r.heading ≠ r.heading ++
      (headerRow lastNumber file loc.position.row loc.position.column ++ rows) := by
    intro heq
    have hlength := congrArg String.length heq
    simp only [String.length_append, headerRow, spaces, String.length_ofList,
      List.length_replicate] at hlength
    have hcorner : "╭─[ ".length = 4 := rfl
    omega
  simp only [render] at hrender
  split at hrender
  · rename_i line last hline hlast
    have hstop := Line.isSome_at? source.toList
      (max (r.location.spanIn source.toList).start ((r.location.spanIn source.toList).stop - 1))
    rw [hlast, Option.isSome_some, eq_comm, decide_eq_true_eq] at hstop
    refine ⟨(Nat.max_le.1 hstop).2, line, hline, ?_⟩
    obtain ⟨more, hbody⟩ := body_eq r file line last (r.location.spanIn source.toList)
    rw [hbody, String.append_right_inj] at hrender
    obtain ⟨hrow, hcolumn⟩ := headerRow_inj hrender
    rw [hrow, hcolumn]
  · exact absurd hrender hheading

variable (htext : source.toList = front ++ c :: back) (hspace : isSpace c = false)
  (hloc : r.location = .known (.behind front))

include hspace in
/-- What can be seen is no line feed. -/
theorem ne_feed_of_visible : c ≠ '\n' := by
  rintro rfl
  exact absurd hspace (by decide)

include htext hloc in
/-- The span of the location is that of its character, in bytes. -/
theorem spanIn_source :
    r.location.spanIn source.toList = ⟨byteLength front, byteLength front + c.utf8Size⟩ := by
  rw [htext, hloc, Location.spanIn_behind]

include hloc in
/-- The location of the report is a position. -/
theorem position_location : r.location.position = .behind front := by rw [hloc]; rfl

include htext hspace hloc

/-- Plain text in front moves nothing: the span starts in the line of the character, and at its
    place there. -/
theorem line_of_plain (hplain : Plain front) :
    r.location.spanIn source.toList = ⟨front.length, front.length + c.utf8Size⟩ ∧ ∃ line,
      Line.at? source.toList front.length = some line ∧ line.Reaches front c ∧
      r.location.position = ⟨line.number, front.length - line.start + 1⟩ := by
  have hspan := spanIn_source htext hloc
  rw [byteLength_eq_length_of_ascii.2 hplain.ascii] at hspan
  obtain ⟨line, hline, hreaches⟩ :=
    Line.reaches_of_endsByFeeds (ne_feed_of_visible hspace) hplain.feeds back
  rw [← htext] at hline
  have hcolumn : front.length - line.start + 1 = (Position.behind front).column := by
    rw [Position.column_behind, ← hreaches.start]
    omega
  exact ⟨hspan, line, hline, hreaches, by rw [position_location hloc, hreaches.number, hcolumn]⟩

/-- A report names the place of its character exactly when the text in front is plain and the bytes
    of the character do not count past the end of the text. -/
theorem headedBy_iff : r.HeadedBy file source r.location ↔
    Plain front ∧ front.length + c.utf8Size ≤ source.toList.length + 1 := by
  constructor
  · intro h
    have hsize := c.utf8Size_pos
    obtain ⟨hstop, line, hline, hplace⟩ := line_of_headedBy (spanIn_source htext hloc) h
    obtain ⟨x, hx⟩ := Nat.exists_eq_add_of_le (length_le_byteLength front)
    rw [position_location hloc] at hplace
    have hrow := congrArg Position.row hplace
    have hcolumn := congrArg Position.column hplace
    rw [Position.column_behind] at hcolumn
    simp only at hrow hcolumn hline hstop
    rw [htext, hx] at hline
    obtain ⟨hfeeds, hreaches⟩ :=
      (Line.reaches_of_number_eq (ne_feed_of_visible hspace) hline).2 hrow.symm
    have hstart := hreaches.start
    have hbytes : byteLength front = front.length := by omega
    exact ⟨⟨byteLength_eq_length_of_ascii.1 hbytes, hfeeds⟩, by omega⟩
  · rintro ⟨hplain, hstop⟩
    obtain ⟨hspan, line, hline, -, hplace⟩ := line_of_plain htext hspace hloc hplain
    exact headedBy_of_line hspan hline (by simp only; omega) hplace

/-- Behind plain text, a report underlines its character and no other one. -/
theorem pointsAt_of_plain (hplain : Plain front) (hc : c.toNat < 128) (htab : c ≠ '\x0b') :
    r.PointsAt file source r.location (lastLine front) c := by
  have hone := utf8Size_eq_one_iff_toNat.2 hc
  obtain ⟨hspan, line, hline, hreaches, hplace⟩ := line_of_plain htext hspace hloc hplain
  rw [hone] at hspan
  -- one byte: the span ends where it starts
  have hlast : max front.length (front.length + 1 - 1) = front.length := by omega
  obtain ⟨behind, width, hquotation⟩ :=
    quotation_eq (r := r) hreaches hplain.ascii hc (not_isBlank hc hspace htab)
  obtain ⟨rows, hbody⟩ := body_eq r file line line ⟨front.length, front.length + 1⟩
  rw [hquotation] at hbody
  refine ⟨behind, width, rows, ?_⟩
  rw [render_of_lines hspan hline (hlast ▸ hline), hbody, hplace]

end Pointing

end Report

/-! ## Reports of errors -/

/-- An error with a location is reported there. -/
theorem ProgramError.location_report {e : ProgramError} {loc : Location}
    (h : e.location? = some loc) : e.report.location = loc := by
  cases e with
  | malformed => contradiction
  | lex e => exact Option.some.inj h ▸ by cases e <;> rfl
  | parse e => exact Option.some.inj h ▸ by cases e <;> rfl
  | type e => exact Option.some.inj h ▸ by cases e <;> rfl
  | lowering e => exact Option.some.inj h ▸ by cases e <;> rfl
  | runtime e => exact Option.some.inj h ▸ by cases e <;> rfl

/-- Every error with a location stands at a visible character.  Its report names this place exactly
    when the text in front is plain and the bytes of the character do not count past the end of the
    text.  It underlines the character, and no other one, when this is ASCII as well, and no
    vertical tab. -/
theorem report_points_at_error {source : String} {e : ProgramError} {loc : Location}
    (hfails : compile source = .error e ∨ ∃ output, (run source output).1 = .error e)
    (hloc : e.location? = some loc) (file : String) :
    ∃ front c back, source.toList = front ++ c :: back ∧ isSpace c = false ∧
      loc = .known (.behind front) ∧
      (e.report.HeadedBy file source loc ↔
        Plain front ∧ front.length + c.utf8Size ≤ source.toList.length + 1) ∧
      (Plain front → c.toNat < 128 → c ≠ '\x0b' →
        e.report.PointsAt file source loc (lastLine front) c) := by
  have hstops : StopsWith source e := by
    rcases hfails with hcompile | ⟨output, hrun⟩
    · exact stopsWith_of_compile hcompile
    · exact stopsWith_of_run hrun
  obtain ⟨front, c, back, htext, hspace, hplace⟩ := visible_of_stopsWith hstops hloc
  have hreport := ProgramError.location_report hloc
  have hplaced : e.report.location = .known (.behind front) := hreport.trans hplace
  refine ⟨front, c, back, htext, hspace, hplace, ?_, fun hplain hc htab => ?_⟩
  · rw [← Report.headedBy_iff htext hspace hplaced, hreport]
  · rw [← hreport]
    exact Report.pointsAt_of_plain htext hspace hplaced hplain hc htab

/-- The `x` in the second line is named and underlined. -/
theorem report_points_at_error_second_line :
    ∃ e, compile "1 +\n  x" = .error e ∧ e.location? = some (.of 2 3) ∧
      e.report.PointsAt "main.expr" "1 +\n  x" (.of 2 3) [' ', ' '] 'x' := by
  have hscan : tokenize "1 +\n  x" = .ok [⟨.integer, "1", .of 1 1⟩, ⟨.operator, "+", .of 1 3⟩,
      ⟨.identifier, "x", .of 2 3⟩] := by cbv
  have hparse : Grammar.parse [⟨.integer, "1", .of 1 1⟩, ⟨.operator, "+", .of 1 3⟩,
      ⟨.identifier, "x", .of 2 3⟩] = .ok (some (.binary (.of 1 3) "+" (.int (.of 1 1) 1)
        (.name (.of 2 3) "x"))) := by with_unfolding_all rfl
  have htype : Typing.typeOf (.binary (.of 1 3) "+" (.int (.of 1 1) 1) (.name (.of 2 3) "x")) =
      .error (.undefinedName "x" (.of 2 3)) := rfl
  have hcompile : compile "1 +\n  x" = .error (.type (.undefinedName "x" (.of 2 3))) := by
    simp only [compile, checkProgram, readProgram, hscan, hparse, htype]
  obtain ⟨front, c, back, htext, -, hplace, -, hpoints⟩ :=
    report_points_at_error (.inl hcompile) rfl "main.expr"
  -- the text is cut in front of the `x`
  have hcut := Position.cut_after .start front (c :: back)
  rw [Position.start_after, ← Location.known.inj hplace, ← htext] at hcut
  have hcut' : Position.cut ⟨2, 3⟩ .start "1 +\n  x".toList =
      (['1', ' ', '+', '\n', ' ', ' '], ['x']) := rfl
  obtain ⟨rfl, hback⟩ := Prod.mk.inj (hcut.symm.trans hcut')
  obtain ⟨rfl, -⟩ := List.cons.inj hback
  exact ⟨_, hcompile, rfl, hpoints (by decide) (by decide) (by decide)⟩

set_option maxRecDepth 4000 in
/-- The comment in front has one character of two bytes, so the header names the column behind the
    right one. -/
theorem report_misses_error :
    ∃ e, (run "/*é*/x" {}).1 = .error e ∧ e.location? = some (.of 1 6) ∧
      ¬e.report.HeadedBy "main.expr" "/*é*/x" (.of 1 6) ∧
      e.report.HeadedBy "main.expr" "/*é*/x" (.of 1 7) := by
  have hscan : tokenize "/*é*/x" = .ok [⟨.identifier, "x", .of 1 6⟩] := by cbv
  have hparse : Grammar.parse [⟨.identifier, "x", .of 1 6⟩] = .ok (some (.name (.of 1 6) "x")) := by
    cbv
  have htype : Typing.typeOf (.name (.of 1 6) "x") = .error (.undefinedName "x" (.of 1 6)) := rfl
  have htext : "/*é*/x".toList = ['/', '*', 'é', '*', '/'] ++ 'x' :: [] := rfl
  refine ⟨.type (.undefinedName "x" (.of 1 6)), ?_, rfl, fun hheaded => ?_, ?_⟩
  · simp only [run, checkProgram, readProgram, hscan, hparse, htype]
  · obtain ⟨hplain, -⟩ := (Report.headedBy_iff htext (by decide) rfl).1 hheaded
    exact absurd hplain (by decide)
  · -- the span of the `x` is read as that of a character behind it, which the line still reaches
    have hline : Line.at? "/*é*/x".toList 6 = some ⟨1, 0, "/*é*/x".toList⟩ := rfl
    exact Report.headedBy_of_line rfl hline (by decide) rfl

end ExprLang
