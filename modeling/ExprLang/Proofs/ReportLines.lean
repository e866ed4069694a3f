/-
  REPORT LINES: which line a report finds at an offset, and which position stands there.

  A report looks a place up twice.  It cuts the text at the position, which gives an offset; then
  it looks for the line of that offset, and it takes more characters for line ends than positions
  do.  `Position.cut_after` settles the first half: the cut is where the position is behind the
  front.  The second half goes over the text character by character, as `splitLines` does: a line
  that ends in front of the others moves them all down (`Line.below`), and any other character
  joins the first line (`Line.joined`).

  The two agree on a place if no line in front of it ends other than by a line feed
  (`Line.reaches_of_endsByFeeds`), and only then (`Line.reaches_of_number_eq`).
-/
import Mathlib
import ExprLang.Proofs.LexicalGrammar
import ExprLang.Report.Layout

namespace ExprLang

/-! ## Positions behind a text -/

namespace Position

/-- The position behind a text is found by walking over it from the start. -/
theorem start_after (text : List Char) : start.after text = behind text := after_behind [] text

/-- Walking over a text goes to a later row, or on in the same one. -/
theorem row_lt_after_or (here : Position) (text : List Char) :
    here.row < (here.after text).row ∨
      (here.after text).row = here.row ∧ (here.after text).column = here.column + text.length := by
  induction text generalizing here with
  | nil => exact .inr ⟨rfl, rfl⟩
  | cons c rest ih =>
    rw [after_cons, List.length_cons]
    have hrest := ih (here.step c)
    by_cases hfeed : c = '\n'
    · simp only [step, if_pos hfeed] at hrest ⊢
      omega
    · simp only [step, if_neg hfeed] at hrest ⊢
      omega

/-- Walking over a character never comes back to where it began, so a cut cannot stop too early. -/
theorem ne_after_cons (here : Position) (c : Char) (text : List Char) :
    here ≠ here.after (c :: text) := by
  intro h
  have hlater := row_lt_after_or here (c :: text)
  rw [← h, List.length_cons] at hlater
  omega

/-- A text is cut where the position behind its front is. -/
theorem cut_after (here : Position) (front back : List Char) :
    (here.after front).cut here (front ++ back) = (front, back) := by
  induction front generalizing here with
  | nil => cases back <;> simp [cut]
  | cons c front ih =>
    have hlater : here ≠ (here.step c).after front := ne_after_cons here c front
    simp only [List.cons_append, after_cons, cut, if_neg hlater, ih]

end Position

/-! ## Bytes -/

/-- A fold from the left is awkward under an induction; a sum is not. -/
theorem byteLength_eq_sum (text : List Char) : byteLength text = (text.map Char.utf8Size).sum := by
  have hfold : ∀ n,
      text.foldl (fun n c => n + c.utf8Size) n = n + (text.map Char.utf8Size).sum := by
    induction text with
    | nil => exact fun _ => rfl
    | cons c rest ih =>
      intro n
      rw [List.foldl_cons, ih, List.map_cons, List.sum_cons, Nat.add_assoc]
  rw [byteLength, hfold, Nat.zero_add]

/-- Bytes are counted character by character. -/
theorem byteLength_cons (c : Char) (text : List Char) :
    byteLength (c :: text) = c.utf8Size + byteLength text := by
  simp only [byteLength_eq_sum, List.map_cons, List.sum_cons]

/-- The bytes of a text are those of its two parts. -/
theorem byteLength_append (front back : List Char) :
    byteLength (front ++ back) = byteLength front + byteLength back := by
  simp only [byteLength_eq_sum, List.map_append, List.sum_append]

/-- Every character has at least one byte, so byte offsets never fall short of character offsets. -/
theorem length_le_byteLength (text : List Char) : text.length ≤ byteLength text := by
  induction text with
  | nil => exact Nat.le_refl 0
  | cons c rest ih =>
    have hpos := c.utf8Size_pos
    rw [List.length_cons, byteLength_cons]
    omega

/-- The two offsets agree exactly in front of characters that all have one byte. -/
theorem byteLength_eq_length_iff (text : List Char) :
    byteLength text = text.length ↔ ∀ c ∈ text, c.utf8Size = 1 := by
  induction text with
  | nil => simp [byteLength]
  | cons c rest ih =>
    have hpos := c.utf8Size_pos
    have hrest := length_le_byteLength rest
    rw [byteLength_cons, List.length_cons, List.forall_mem_cons, ← ih]
    omega

/-- A location is cut where it was found, `Position.cut_after` seen from the start. -/
theorem Location.cut_behind (front back : List Char) :
    (Location.known (.behind front)).cut (front ++ back) = (front, back) := by
  rw [Location.cut, ← Position.start_after, Position.cut_after]

/-- Its offset is the number of bytes in front. -/
theorem Location.offsetIn_behind (front back : List Char) :
    (Location.known (.behind front)).offsetIn (front ++ back) = byteLength front := by
  rw [Location.offsetIn, cut_behind]

/-- The span of a location that a text reaches: the bytes in front, and those of the character. -/
theorem Location.spanIn_behind (front back : List Char) (c : Char) :
    (Location.known (.behind front)).spanIn (front ++ c :: back) =
      ⟨byteLength front, byteLength front + c.utf8Size⟩ := by
  simp [Location.spanIn, cut_behind, byteLength]

/-! ## Lines -/

namespace Line

/-- A line with one more line of one character above it. -/
def below (line : Line) : Line := ⟨line.number + 1, line.start + 1, line.text⟩

/-- A line with one more character in front of the first one. -/
def joined (c : Char) (line : Line) : Line :=
  if line.number = 1 then ⟨1, 0, c :: line.text⟩ else ⟨line.number, line.start + 1, line.text⟩

/-- A character joins the line without changing its number. -/
@[simp] theorem number_joined (c : Char) (line : Line) :
    (line.joined c).number = line.number := by
  unfold joined
  split
  · rename_i h
    exact h.symm
  · rfl

/-- Counting lines and offsets from one higher moves every line down by one. -/
theorem numberFrom_succ (number start : Nat) (lines : List (List Char)) :
    numberFrom (number + 1) (start + 1) lines = (numberFrom number start lines).map below := by
  induction lines generalizing number start with
  | nil => rfl
  | cons text rest ih =>
    rw [numberFrom, numberFrom, List.map_cons, ← ih, Nat.add_right_comm start]
    rfl

/-- Lines are numbered and placed from the given ones on, and only the first one is at the start. -/
theorem number_of_mem {number start : Nat} {lines : List (List Char)} {line : Line}
    (h : line ∈ numberFrom number start lines) :
    number ≤ line.number ∧ start ≤ line.start ∧ (line.number = number → line.start = start) := by
  induction lines generalizing number start with
  | nil => simp [numberFrom] at h
  | cons text rest ih =>
    rcases List.mem_cons.1 h with rfl | hrest
    · simp
    · have := ih hrest
      omega

/-- Each line has a higher number than those in front of it. -/
theorem pairwise_numberFrom (number start : Nat) (lines : List (List Char)) :
    (numberFrom number start lines).Pairwise (·.number < ·.number) := by
  induction lines generalizing number start with
  | nil => exact .nil
  | cons text rest ih =>
    refine List.pairwise_cons.2 ⟨fun line hline => ?_, ih _ _⟩
    exact (number_of_mem hline).1

/-- Lines behind the first one keep their numbers when a character is put in front of the text. -/
theorem numberFrom_joined (c : Char) {number : Nat} (hnumber : 1 < number) (start : Nat)
    (lines : List (List Char)) :
    numberFrom number (start + 1) lines = (numberFrom number start lines).map (joined c) := by
  induction lines generalizing number start with
  | nil => rfl
  | cons text rest ih =>
    rw [numberFrom, numberFrom, List.map_cons, ← ih (by omega), Nat.add_right_comm start, joined,
      if_neg (by simp only; omega)]

/-- A text that is not empty has a line. -/
theorem splitLines_ne_nil {text : List Char} (h : text ≠ []) : splitLines text ≠ [] := by
  intro hnone
  apply h
  rw [← flatten_splitLines text, hnone, List.flatten_nil]

/-- Whether a line ends at a character, with this text behind it. -/
abbrev EndsAt (c : Char) (rest : List Char) : Prop :=
  endsLine c = true ∧ ¬(c = '\r' ∧ rest.head? = some '\n')

/-- A line feed always ends its line. -/
theorem ne_feed_of_not_end {c : Char} {rest : List Char} (hend : ¬EndsAt c rest) : c ≠ '\n' := by
  rintro rfl
  exact hend (by simp [EndsAt, endsLine])

/-- A character that ends its line is a line of its own in front of the others. -/
theorem splitLines_of_end {c : Char} {rest : List Char} (hend : EndsAt c rest) :
    splitLines (c :: rest) = [c] :: splitLines rest := by
  rw [splitLines]
  exact if_pos hend

/-- Any other character joins the first line of the rest. -/
theorem splitLines_of_not_end {c : Char} {rest line : List Char} {more : List (List Char)}
    (hend : ¬EndsAt c rest) (hrest : splitLines rest = line :: more) :
    splitLines (c :: rest) = (c :: line) :: more := by
  rw [splitLines, hrest]
  exact if_neg hend

/-- The case of the empty text, which is one empty line, is out of the way. -/
theorem ofText_of_ne_nil {text : List Char} (h : text ≠ []) :
    ofText text = numberFrom 1 0 (splitLines text) := by rw [ofText, if_neg h]

/-- A new first line moves all the others down. -/
theorem ofText_of_end {c : Char} {rest : List Char} (hrest : rest ≠ []) (hend : EndsAt c rest) :
    ofText (c :: rest) = ⟨1, 0, [c]⟩ :: (ofText rest).map below := by
  rw [ofText_of_ne_nil (by simp), ofText_of_ne_nil hrest, splitLines_of_end hend, numberFrom,
    ← numberFrom_succ]
  rfl

/-- A character in front joins the first line and moves the starts of the others. -/
theorem ofText_of_not_end {c : Char} {rest : List Char} (hrest : rest ≠ [])
    (hend : ¬EndsAt c rest) : ofText (c :: rest) = (ofText rest).map (joined c) := by
  rw [ofText_of_ne_nil (by simp), ofText_of_ne_nil hrest]
  rcases hlines : splitLines rest with _ | ⟨line, more⟩
  · exact absurd hlines (splitLines_ne_nil hrest)
  · rw [splitLines_of_not_end hend hlines, numberFrom, numberFrom, List.map_cons,
      List.length_cons, ← Nat.add_assoc, numberFrom_joined c (by omega)]
    rfl

/-- The first line starts with the first character, whether this ends it or not. -/
theorem splitLines_cons (c : Char) (back : List Char) :
    ∃ more lines, splitLines (c :: back) = (c :: more) :: lines := by
  by_cases hend : EndsAt c back
  · exact ⟨[], _, splitLines_of_end hend⟩
  · rcases hlines : splitLines back with _ | ⟨line, lines⟩
    · rw [splitLines, hlines, if_neg hend]
      exact ⟨[], [], rfl⟩
    · exact ⟨line, lines, splitLines_of_not_end hend hlines⟩

/-- The line at an offset is one of the lines of the text. -/
theorem mem_of_at? {text : List Char} {offset : Nat} {line : Line}
    (h : at? text offset = some line) : line ∈ ofText text := by
  unfold at? at h
  split at h
  · exact (List.mem_filter.1 (List.mem_of_getLast? h)).1
  · contradiction

/-- Further on in a text no earlier line is found. -/
theorem number_le_of_at? {text : List Char} {m n : Nat} {line last : Line} (hmn : m ≤ n)
    (hline : at? text m = some line) (hlast : at? text n = some last) :
    line.number ≤ last.number := by
  unfold at? at hline hlast
  split at hline
  · split at hlast
    · obtain ⟨hmem, hstart⟩ := List.mem_filter.1 (List.mem_of_getLast? hline)
      have hcandidate : line ∈ (ofText text).filter (·.start ≤ n) :=
        List.mem_filter.2 ⟨hmem, by simpa using (of_decide_eq_true hstart).trans hmn⟩
      -- the last one of the candidates has the highest number
      obtain ⟨front, hfront⟩ := List.getLast?_eq_some_iff.1 hlast
      have hordered : ((ofText text).filter (·.start ≤ n)).Pairwise (·.number < ·.number) :=
        (pairwise_numberFrom ..).filter _
      rw [hfront, List.pairwise_append] at hordered
      rw [hfront, List.mem_append, List.mem_singleton] at hcandidate
      rcases hcandidate with hearlier | rfl
      · exact (hordered.2.2 line hearlier last List.mem_cons_self).le
      · exact Nat.le_refl _
    · contradiction
  · contradiction

/-- The first line of a text holds its first character. -/
theorem at?_zero (c : Char) (back : List Char) :
    ∃ more, at? (c :: back) 0 = some ⟨1, 0, c :: more⟩ := by
  obtain ⟨more, lines, hlines⟩ := splitLines_cons c back
  have hlater : (numberFrom (1 + 1) (0 + (c :: more).length) lines).filter (·.start ≤ 0) = [] := by
    rw [List.filter_eq_nil_iff]
    intro line hline
    obtain ⟨-, hstart, -⟩ := number_of_mem hline
    rw [List.length_cons] at hstart
    simp only [decide_eq_true_eq]
    omega
  refine ⟨more, ?_⟩
  rw [at?, if_pos (Nat.zero_le _), ofText_of_ne_nil (by simp), hlines, numberFrom,
    List.filter_cons_of_pos (by simp), hlater]
  rfl

/-- The offset behind a line of one character is looked up in the rest, one line further down. -/
theorem at?_succ_of_end {c : Char} {rest : List Char} (hrest : rest ≠ []) (hend : EndsAt c rest)
    (offset : Nat) : at? (c :: rest) (offset + 1) = (at? rest offset).map below := by
  have hsame : ∀ line, decide ((below line).start ≤ offset + 1) = decide (line.start ≤ offset) :=
    fun line => by simp [below]
  simp only [at?, ofText_of_end hrest hend, List.length_cons, Nat.add_le_add_iff_right]
  rw [List.filter_cons_of_pos (by simp)]
  simp only [List.filter_map, Function.comp_def, hsame, List.getLast?_cons, List.getLast?_map]
  -- the first line of the rest starts at the front of it
  obtain ⟨d, back, rfl⟩ := List.exists_cons_of_ne_nil hrest
  obtain ⟨more, lines, hlines⟩ := splitLines_cons d back
  rw [ofText_of_ne_nil hrest, hlines, numberFrom, List.filter_cons_of_pos (by simp),
    List.getLast?_cons]
  split <;> rfl

/-- So it is behind any other character, in the same line. -/
theorem at?_succ_of_not_end {c : Char} {rest : List Char} (hrest : rest ≠ [])
    (hend : ¬EndsAt c rest) (offset : Nat) :
    at? (c :: rest) (offset + 1) = (at? rest offset).map (joined c) := by
  have hsame : ∀ line ∈ ofText rest,
      decide ((joined c line).start ≤ offset + 1) = decide (line.start ≤ offset) := by
    intro line hline
    rw [ofText_of_ne_nil hrest] at hline
    obtain ⟨-, -, hfirst⟩ := number_of_mem hline
    unfold joined
    split
    · rename_i hnumber
      simp [hfirst hnumber]
    · simp
  simp only [at?, ofText_of_not_end hrest hend, List.filter_map, Function.comp_def,
    List.filter_congr hsame, List.getLast?_map, List.length_cons, Nat.add_le_add_iff_right]
  split <;> rfl

/-- Some line starts at the front, even if the text is empty. -/
theorem exists_start_eq_zero (text : List Char) : ∃ line ∈ ofText text, line.start = 0 := by
  cases text with
  | nil => exact ⟨_, List.mem_singleton_self _, rfl⟩
  | cons c back =>
    obtain ⟨more, lines, hlines⟩ := splitLines_cons c back
    rw [ofText_of_ne_nil (by simp), hlines, numberFrom]
    exact ⟨_, List.mem_cons_self, rfl⟩

/-- There is a line for every offset up to the end of the text, and for none behind. -/
theorem isSome_at? (text : List Char) (offset : Nat) :
    (at? text offset).isSome = decide (offset ≤ text.length) := by
  unfold at?
  split
  · rename_i h
    obtain ⟨line, hline, hstart⟩ := exists_start_eq_zero text
    simpa [h] using ⟨line, hline, hstart ▸ Nat.zero_le offset⟩
  · rename_i h
    simp [h]

end Line

/-! ## The line of a position -/

/-- The characters of a text behind its last line feed. -/
def lastLine (text : List Char) : List Char := (text.reverse.takeWhile inLine).reverse

/-- The lines that a report sees in a text are those of the language: a line feed ends each of
    them, alone or behind a carriage return. -/
def EndsByFeeds : List Char → Prop
  | [] => True
  | c :: rest => (Line.EndsAt c rest → c = '\n') ∧ EndsByFeeds rest

/-- One step for each character: it ends its line, as a feed or not, or it does not. -/
instance EndsByFeeds.decidable : DecidablePred EndsByFeeds
  | [] => .isTrue trivial
  | c :: rest =>
    have := EndsByFeeds.decidable rest
    inferInstanceAs (Decidable ((Line.EndsAt c rest → c = '\n') ∧ EndsByFeeds rest))

/-- A carriage return that stands alone is no line end of the language. -/
example : ¬EndsByFeeds ['\r', 'x'] ∧ EndsByFeeds ['\r', '\n', 'x'] := by decide

/-- The column counts the characters behind the last line feed. -/
theorem Position.column_behind (text : List Char) :
    (behind text).column = (lastLine text).length + 1 := by
  rw [behind, lastLine, List.length_reverse]

/-- Without line feeds everything is in the last line. -/
theorem lastLine_of_not_mem {text : List Char} (h : '\n' ∉ text) : lastLine text = text := by
  have hall : ∀ c ∈ text.reverse, inLine c = true := fun c hc => by
    simpa [inLine] using fun heq : c = '\n' => h (heq ▸ List.mem_reverse.1 hc)
  rw [lastLine, List.takeWhile_eq_self_iff.2 hall, List.reverse_reverse]

/-- What stands in front of a line feed is not in it, nor is the feed. -/
theorem lastLine_cons_of_mem {c : Char} {text : List Char} (h : c = '\n' ∨ '\n' ∈ text) :
    lastLine (c :: text) = lastLine text := by
  rw [lastLine, lastLine, List.reverse_cons, List.takeWhile_append]
  split
  · rename_i hlength
    have hself : text.reverse.takeWhile inLine = text.reverse :=
      (List.takeWhile_prefix _).eq_of_length hlength
    have hnone : '\n' ∉ text := fun hmem => by
      simpa [inLine] using List.takeWhile_eq_self_iff.1 hself _ (List.mem_reverse.2 hmem)
    obtain rfl := h.resolve_right hnone
    simp [hself, inLine]
  · rfl

/-- The last line is a part of the text. -/
theorem mem_of_mem_lastLine {text : List Char} {c : Char} (h : c ∈ lastLine text) : c ∈ text :=
  List.mem_reverse.1 ((List.takeWhile_sublist _).mem (List.mem_reverse.1 h))

/-- The row counts the line feeds. -/
theorem Position.row_behind_cons (c : Char) (text : List Char) :
    (behind (c :: text)).row = (behind text).row + if c = '\n' then 1 else 0 := by
  simp only [behind, List.count_cons, beq_iff_eq]
  split <;> omega

/-- So it is the first one exactly when there are none. -/
theorem Position.row_behind_eq_one_iff {text : List Char} :
    (behind text).row = 1 ↔ '\n' ∉ text := by
  rw [behind, Nat.add_eq_right, List.count_eq_zero]

/-- Whether a character ends its line is decided by the next one, which is not the line feed of a
    pair unless it stands in the front already. -/
theorem Line.endsAt_append {d c : Char} (hc : c ≠ '\n') (front back : List Char) :
    EndsAt d (front ++ c :: back) ↔ EndsAt d front := by
  have hhead : (front ++ c :: back).head? = some '\n' ↔ front.head? = some '\n' := by
    cases front <;> simp [hc]
  rw [EndsAt, EndsAt, hhead]

namespace Line

/-- A line that a text ends in, in front of a character. -/
structure Reaches (line : Line) (front : List Char) (c : Char) : Prop where
  number : line.number = (Position.behind front).row
  start : line.start + (lastLine front).length = front.length
  text : ∃ more, line.text = lastLine front ++ c :: more

/-- A line feed in front puts another line above. -/
theorem Reaches.below {line : Line} {front : List Char} {c : Char} (h : line.Reaches front c) :
    line.below.Reaches ('\n' :: front) c := by
  have hlast : lastLine ('\n' :: front) = lastLine front := lastLine_cons_of_mem (.inl rfl)
  refine ⟨?_, ?_, ?_⟩
  · rw [Position.row_behind_cons, if_pos rfl, ← h.number]
    rfl
  · rw [hlast, List.length_cons, ← h.start, Line.below, Nat.add_right_comm]
  · rw [hlast]
    exact h.text

/-- Any other character in front belongs to the line, or to a line above. -/
theorem Reaches.joined {line : Line} {front : List Char} {c d : Char} (h : line.Reaches front c)
    (hd : d ≠ '\n') : (line.joined d).Reaches (d :: front) c := by
  obtain ⟨more, htext⟩ := h.text
  have hrow : (Position.behind (d :: front)).row = line.number := by
    rw [Position.row_behind_cons, if_neg hd, h.number, Nat.add_zero]
  by_cases hmem : '\n' ∈ front
  · have hlast : lastLine (d :: front) = lastLine front := lastLine_cons_of_mem (.inr hmem)
    have hnumber : line.number ≠ 1 := by
      rw [h.number, Ne, Position.row_behind_eq_one_iff]
      exact fun h => h hmem
    rw [Line.joined, if_neg hnumber]
    refine ⟨hrow.symm, ?_, more, ?_⟩
    · rw [hlast, List.length_cons, ← h.start, Nat.add_right_comm]
    · rw [hlast, htext]
  · have hlast : lastLine (d :: front) = d :: front :=
      lastLine_of_not_mem (by simp [hmem, hd.symm])
    have hnumber : line.number = 1 := by rw [h.number, Position.row_behind_eq_one_iff.2 hmem]
    rw [Line.joined, if_pos hnumber]
    refine ⟨by rw [hrow, hnumber], ?_, more, ?_⟩
    · rw [hlast, Nat.zero_add]
    · rw [hlast, htext, lastLine_of_not_mem hmem, List.cons_append]

/-- Behind lines that end as those of the language do, a report finds a character in the row of its
    position, behind the same characters. -/
theorem reaches_of_endsByFeeds {c : Char} (hc : c ≠ '\n') {front : List Char}
    (hfront : EndsByFeeds front) (back : List Char) :
    ∃ line, at? (front ++ c :: back) front.length = some line ∧ line.Reaches front c := by
  induction front with
  | nil =>
    obtain ⟨more, hline⟩ := at?_zero c back
    exact ⟨_, hline, rfl, rfl, more, rfl⟩
  | cons d front ih =>
    obtain ⟨line, hline, hreaches⟩ := ih hfront.2
    have hne : front ++ c :: back ≠ [] := by simp
    by_cases hend : EndsAt d (front ++ c :: back)
    · obtain rfl := hfront.1 ((endsAt_append hc front back).1 hend)
      refine ⟨line.below, ?_, hreaches.below⟩
      rw [List.cons_append, List.length_cons, at?_succ_of_end hne hend, hline]
      rfl
    · refine ⟨line.joined d, ?_, hreaches.joined (ne_feed_of_not_end hend)⟩
      rw [List.cons_append, List.length_cons, at?_succ_of_not_end hne hend, hline]
      rfl

/-- From a character on, a report finds no line with a lower number than the row of the character.
    It finds one of the same number only if all lines in front end as those of the language do. -/
theorem reaches_of_number_eq {c : Char} (hc : c ≠ '\n') {front back : List Char} {x : Nat}
    {line : Line} (hline : at? (front ++ c :: back) (front.length + x) = some line) :
    (Position.behind front).row ≤ line.number ∧
      (line.number = (Position.behind front).row → EndsByFeeds front ∧ line.Reaches front c) := by
  induction front generalizing line with
  | nil =>
    obtain ⟨more, lines, hlines⟩ := splitLines_cons c back
    have hmem := mem_of_at? hline
    rw [List.nil_append, ofText_of_ne_nil (by simp), hlines, numberFrom] at hmem
    rcases List.mem_cons.1 hmem with rfl | hlater
    · exact ⟨Nat.le_refl 1, fun _ => ⟨trivial, rfl, rfl, more, rfl⟩⟩
    · have hnumber : 2 ≤ line.number := (number_of_mem hlater).1
      exact ⟨Nat.le_of_succ_le hnumber, fun heq => absurd (heq ▸ hnumber) (by decide)⟩
  | cons d front ih =>
    have hne : front ++ c :: back ≠ [] := by simp
    rw [List.cons_append, List.length_cons, Nat.add_right_comm] at hline
    by_cases hend : EndsAt d (front ++ c :: back)
    · rw [at?_succ_of_end hne hend, Option.map_eq_some_iff] at hline
      obtain ⟨line, hline, rfl⟩ := hline
      obtain ⟨hle, hreaches⟩ := ih hline
      rw [Position.row_behind_cons]
      refine ⟨?_, fun hnumber => ?_⟩
      · simp only [below]
        split <;> omega
      · -- the line number has grown by one, so the row must have
        have hfeed : d = '\n' := by
          by_contra hd
          rw [if_neg hd] at hnumber
          simp only [below] at hnumber
          omega
        subst hfeed
        obtain ⟨hfeeds, hreaches⟩ := hreaches (by simpa [below] using hnumber)
        exact ⟨⟨fun _ => rfl, hfeeds⟩, hreaches.below⟩
    -- what ends no line belongs to the line behind it, and adds to its length only
    · have hd := ne_feed_of_not_end hend
      rw [at?_succ_of_not_end hne hend, Option.map_eq_some_iff] at hline
      obtain ⟨line, hline, rfl⟩ := hline
      obtain ⟨hle, hreaches⟩ := ih hline
      rw [Position.row_behind_cons, if_neg hd, Nat.add_zero, number_joined]
      refine ⟨hle, fun heq => ?_⟩
      obtain ⟨hfeeds, hreaches⟩ := hreaches heq
      exact ⟨⟨fun h => absurd ((endsAt_append hc front back).2 h) hend, hfeeds⟩,
        hreaches.joined hd⟩

end Line
end ExprLang
