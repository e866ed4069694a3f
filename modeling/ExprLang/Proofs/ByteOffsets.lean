/-
  BYTE OFFSETS: trackers and the search for a location undo each other.

  A tracker goes from offsets to locations, slice by slice; `Location.offsetIn` goes back, from the
  start of the text.  Both rest on one picture: the text is cut in two, the offset counts the bytes
  of the front, and the location stands behind the front.  `splitAt?_append` is the first half of
  the picture and `Location.cut_behind` the second.

  The crux is that a tracker never slices inside of a character.  What it has counted is a front of
  the text, hence a front of every later front (`prefix_of_byteLength_le`), and what lies between
  the two is the slice (`Tracker.locate?_behind`).  Along a sequence of offsets this is all there
  is to do (`Tracker.locateAll?_behind`); along the lexer's pieces the offsets need no assumption,
  since each piece ends where it was cut (`tokenizeAt?_behind`).
-/
import ExprLang.Proofs.SourceLocations
import ExprLang.Token.Tracker

namespace ExprLang

/-! ## Bytes of a front -/

/-- An offset at which a character of the text starts, or at which the text ends. -/
def IsBoundary (source : String) (offset : Nat) : Prop := String.Pos.Raw.IsValid source ⟨offset⟩

/-- Every character takes a byte at least. -/
theorem byteLength_eq_zero_iff {text : List Char} : byteLength text = 0 ↔ text = [] := by
  refine ⟨fun h => ?_, fun h => h ▸ rfl⟩
  have hlength := length_le_byteLength text
  exact List.length_eq_zero_iff.1 (by omega)

/-- The characters of a string take as many bytes as it has. -/
theorem byteLength_toList (s : String) : byteLength s.toList = s.utf8ByteSize := by
  have hlist (text : List Char) : byteLength text = (String.ofList text).utf8ByteSize := by
    induction text with
    | nil => rfl
    | cons c rest ih =>
      have hsplit : String.ofList (c :: rest) = String.singleton c ++ String.ofList rest := by
        rw [String.singleton_eq_ofList, ← String.ofList_append, List.singleton_append]
      rw [byteLength_cons, ih, hsplit, String.utf8ByteSize_append, String.utf8ByteSize_singleton]
  rw [hlist, String.ofList_toList]

/-- A boundary lies behind some of the characters. -/
theorem isBoundary_iff {source : String} {offset : Nat} : IsBoundary source offset ↔
    ∃ front back, source.toList = front ++ back ∧ byteLength front = offset := by
  rw [IsBoundary, String.Pos.Raw.isValid_iff_exists_append]
  constructor
  · rintro ⟨front, back, rfl, hoffset⟩
    refine ⟨front.toList, back.toList, String.toList_append, ?_⟩
    rw [byteLength_toList]
    exact (congrArg String.Pos.Raw.byteIdx hoffset).symm
  · rintro ⟨front, back, hsource, rfl⟩
    refine ⟨String.ofList front, String.ofList back, ?_, ?_⟩
    · rw [← String.ofList_append, ← hsource, String.ofList_toList]
    · rw [String.rawEndPos, ← byteLength_toList, String.toList_ofList]

/-- Of two fronts the one with fewer bytes is a front of the other. -/
theorem prefix_of_byteLength_le {one two text : List Char} (hone : one <+: text)
    (htwo : two <+: text) (hle : byteLength one ≤ byteLength two) : one <+: two := by
  rcases List.prefix_or_prefix_of_prefix hone htwo with h | ⟨more, rfl⟩
  · exact h
  · rw [byteLength_append] at hle
    have hmore : more = [] := byteLength_eq_zero_iff.1 (by omega)
    rw [hmore, List.append_nil]

/-! ## Slices -/

/-- A text is split where one of two pieces ends. -/
theorem splitAt?_append (front back : List Char) :
    splitAt? (byteLength front) (front ++ back) = some (front, back) := by
  induction front with
  | nil => cases back <;> rfl
  | cons c front ih =>
    have hpos := c.utf8Size_pos
    obtain ⟨n, hn⟩ : ∃ n, byteLength (c :: front) = n + 1 := ⟨byteLength (c :: front) - 1, by
      rw [byteLength_cons]; omega⟩
    rw [byteLength_cons] at hn
    have hrest : n + 1 - c.utf8Size = byteLength front := by omega
    rw [byteLength_cons, hn, List.cons_append, splitAt?, if_pos (by omega), hrest, ih]
    rfl

/-- The pieces of a split are the text. -/
theorem eq_of_splitAt? {n : Nat} {text front back : List Char}
    (h : splitAt? n text = some (front, back)) : text = front ++ back ∧ byteLength front = n := by
  fun_induction splitAt? n text generalizing front with
  | case1 text =>
    obtain ⟨rfl, rfl⟩ := Prod.mk.inj (Option.some.inj h)
    exact ⟨rfl, rfl⟩
  | case2 => contradiction
  | case3 n c rest hfits ih =>
    obtain ⟨⟨front', back'⟩, hrest, heq⟩ := Option.map_eq_some_iff.1 h
    obtain ⟨rfl, rfl⟩ := Prod.mk.inj heq
    obtain ⟨rfl, hlength⟩ := ih hrest
    exact ⟨rfl, by rw [byteLength_cons]; omega⟩
  | case4 => contradiction

/-- A slice is a middle part of the text that starts and ends at the two offsets. -/
theorem slice?_eq_some_iff {source piece : List Char} {start stop : Nat} :
    slice? source start stop = some piece ↔ ∃ front back, source = front ++ (piece ++ back) ∧
      byteLength front = start ∧ byteLength (front ++ piece) = stop := by
  constructor
  · intro h
    unfold slice? at h
    split at h
    · simp only [Option.bind_eq_bind, Option.bind_eq_some_iff, Prod.exists, Option.pure_def,
        Option.some.injEq] at h
      obtain ⟨front, behind, hfront, _, back, hpiece, rfl⟩ := h
      obtain ⟨rfl, rfl⟩ := eq_of_splitAt? hfront
      obtain ⟨rfl, hlength⟩ := eq_of_splitAt? hpiece
      exact ⟨front, back, rfl, rfl, by rw [byteLength_append]; omega⟩
    · contradiction
  · rintro ⟨front, back, rfl, rfl, rfl⟩
    rw [byteLength_append, slice?, if_pos (Nat.le_add_right _ _), splitAt?_append,
      Option.bind_eq_bind, Option.bind_some, Nat.add_sub_cancel_left]
    simp only [splitAt?_append, Option.bind_some, Option.pure_def]

example : slice? ['a', 'é', 'b'] 1 3 = some ['é'] ∧ slice? ['a', 'é', 'b'] 2 3 = none := by decide

/-! ## Locations behind a front -/

/-- The text in front of a location and the text from there on are the whole. -/
theorem Location.cut_eq_append (loc : Location) (source : List Char) :
    source = (loc.cut source).1 ++ (loc.cut source).2 := by
  cases loc with
  | known target => exact (target.cut_append .start source).symm
  | synthetic => rfl

/-! ## Trackers -/

namespace Tracker

/-- The tracker that has counted a front of the text. -/
def behind (front : List Char) : Tracker := ⟨byteLength front, .behind front⟩

/-- A tracker that has counted less finds the location behind a front, and has counted it then. -/
theorem locate?_behind {seen front : List Char} (hseen : seen <+: front) (back : List Char) :
    (behind seen).locate? (front ++ back) (byteLength front)
      = some (.known (.behind front), behind front) := by
  obtain ⟨piece, rfl⟩ := hseen
  have hslice : slice? (seen ++ piece ++ back) (behind seen).offset (byteLength (seen ++ piece))
      = some piece := slice?_eq_some_iff.2 ⟨seen, back, List.append_assoc .., rfl, rfl⟩
  have hhere : (behind seen).here.after piece = .behind (seen ++ piece) :=
    Position.after_behind seen piece
  rw [locate?, hslice, Option.bind_eq_bind, Option.bind_some, hhere]
  rfl

/-- The locations of increasing boundaries have these as their offsets. -/
theorem locateAll?_behind {source : String} {seen : List Char} {offsets : List Nat}
    (hseen : seen <+: source.toList) (hsorted : (byteLength seen :: offsets).Pairwise (· ≤ ·))
    (hbounds : ∀ n ∈ offsets, IsBoundary source n) :
    ∃ locations, (behind seen).locateAll? source.toList offsets = some locations ∧
      locations.map (·.offsetIn source.toList) = offsets := by
  induction offsets generalizing seen with
  | nil => exact ⟨[], rfl, rfl⟩
  | cons n offsets ih =>
    obtain ⟨hfirst, hrest⟩ := List.forall_mem_cons.1 hbounds
    obtain ⟨hle, hlater⟩ := List.pairwise_cons.1 hsorted
    obtain ⟨front, back, hsource, rfl⟩ := isBoundary_iff.1 hfirst
    have hfront : front <+: source.toList := hsource ▸ List.prefix_append front back
    have hcounted : seen <+: front :=
      prefix_of_byteLength_le hseen hfront (hle _ List.mem_cons_self)
    obtain ⟨locations, hlocate, hback⟩ := ih hfront hlater hrest
    refine ⟨.known (.behind front) :: locations, ?_, ?_⟩
    · have hstep : (behind seen).locate? source.toList (byteLength front)
          = some (.known (.behind front), behind front) := by
        rw [hsource, locate?_behind hcounted]
      simp only [locateAll?, hstep, hlocate, Option.bind_eq_bind, Option.bind_some, Option.pure_def]
    · rw [List.map_cons, hback, hsource, Location.offsetIn_behind]

end Tracker

/-! ## The lexer -/

/-- Behind any front of the text the lexer with a tracker reads what the lexer reads. -/
theorem tokenizeAt?_behind {seen front : List Char} (hseen : seen <+: front) (text : List Char) :
    tokenizeAt? (front ++ text) (.behind seen) (byteLength front) text
      = some (tokenizeFrom (.behind front) text) := by
  generalize hsource : front ++ text = source
  generalize htracker : Tracker.behind seen = tracker
  generalize hoffset : byteLength front = offset
  fun_induction tokenizeAt? source tracker offset text generalizing front seen with
  | case1 tracker offset text hscan =>
    rw [tokenizeFrom]
    split <;> simp_all
  | case2 tracker offset text skipped rest hscan hblock ih =>
    -- the tracker catches up with the front, the next piece starts behind the comment
    subst hsource htracker hoffset
    obtain ⟨rfl, -⟩ := scan_gap hscan
    rw [Tracker.locate?_behind hseen, tokenizeFrom_of_gap hscan, Position.after_behind]
    exact ih _ (List.prefix_append front skipped) (List.append_assoc ..) rfl (byteLength_append ..)
  | case3 tracker offset text skipped rest hscan hother ih =>
    -- the tracker stays behind
    subst hsource htracker hoffset
    obtain ⟨rfl, -⟩ := scan_gap hscan
    rw [tokenizeFrom_of_gap hscan, Position.after_behind]
    exact ih (hseen.trans (List.prefix_append front skipped)) (List.append_assoc ..) rfl
      (byteLength_append ..)
  | case4 tracker offset text kind spelling rest hscan ih =>
    subst hsource htracker hoffset
    obtain ⟨rfl, -⟩ := scan_token hscan
    have hrest := ih _ (List.prefix_append front spelling) (List.append_assoc ..) rfl
      (byteLength_append ..)
    rw [Tracker.locate?_behind hseen, tokenizeFrom_of_token hscan, Position.after_behind]
    simp only [hrest, Option.bind_eq_bind, Option.bind_some, Option.pure_def]
  | case5 tracker offset text c hscan =>
    subst hsource htracker hoffset
    rw [Tracker.locate?_behind hseen, tokenizeFrom]
    split <;> simp_all
  | case6 tracker offset text hscan =>
    subst hsource htracker hoffset
    rw [Tracker.locate?_behind hseen, tokenizeFrom]
    split <;> simp_all

/-- A token stands at the offset of its location. -/
theorem slice?_of_begins {text piece : List Char} {loc : Location} (h : loc.Begins text piece) :
    ∃ back, slice? text (loc.offsetIn text) (byteLength text) = some (piece ++ back) := by
  obtain ⟨front, back, rfl, rfl⟩ := h
  rw [Location.offsetIn_behind]
  exact ⟨back, slice?_eq_some_iff.2 ⟨front, [], by rw [List.append_nil], rfl, rfl⟩⟩

/-! ## Spans -/

namespace Location

/-- A span lies between two boundaries; it covers one character, or it is the end of the text. -/
structure Spans (source : String) (span : Span) : Prop where
  start : IsBoundary source span.start
  stop : IsBoundary source span.stop
  covers : (∃ c, slice? source.toList span.start span.stop = some [c]) ∨
    span = ⟨byteLength source.toList, byteLength source.toList⟩

/-- Every location has a span, whether or not something stands there. -/
theorem spans_spanIn (loc : Location) (source : String) :
    Spans source (loc.spanIn source.toList) := by
  have hsource := loc.cut_eq_append source.toList
  have hspan : loc.spanIn source.toList = ⟨byteLength (loc.cut source.toList).1,
      byteLength (loc.cut source.toList).1 + byteLength ((loc.cut source.toList).2.take 1)⟩ := rfl
  generalize loc.cut source.toList = parts at hsource hspan
  obtain ⟨front, behind⟩ := parts
  rw [hspan, ← byteLength_append]
  refine ⟨isBoundary_iff.2 ⟨front, behind, hsource, rfl⟩,
    isBoundary_iff.2 ⟨front ++ behind.take 1, behind.drop 1, ?_, rfl⟩, ?_⟩
  · rw [List.append_assoc, List.take_append_drop, hsource]
  · cases behind with
    | nil => exact .inr (by simp only [hsource, List.take_nil, List.append_nil])
    | cons c rest => exact .inl ⟨c, slice?_eq_some_iff.2 ⟨front, rest, hsource, rfl, rfl⟩⟩

/-- The slice behind a location that the span is taken from is there. -/
theorem slicedSpan?_eq (loc : Location) (source : List Char) :
    loc.slicedSpan? source = some (loc.spanIn source) := by
  have hslice : slice? source (loc.offsetIn source) (byteLength source)
      = some (loc.cut source).2 :=
    slice?_eq_some_iff.2 ⟨(loc.cut source).1, [], by rw [List.append_nil, ← cut_eq_append], rfl,
      by rw [← cut_eq_append]⟩
  rw [slicedSpan?, hslice]
  rfl

end Location

/-- Locations and byte offsets undo each other.  One tracker finds a location for each of some
    increasing boundaries, and that location's offset is the boundary.  The tokens of a text are
    what the lexer finds with a tracker, and each of them stands at its offset.  The span of any
    location lies between two boundaries of the text and covers one character, or is the end. -/
theorem locations_and_offsets (source : String) :
    (∀ offsets : List Nat, offsets.Pairwise (· ≤ ·) → (∀ n ∈ offsets, IsBoundary source n) →
      ∃ locations, Tracker.start.locateAll? source.toList offsets = some locations ∧
        locations.map (·.offsetIn source.toList) = offsets) ∧
    tokenize? source = some (tokenize source) ∧
    (∀ tokens, tokenize source = .ok tokens → ∀ t ∈ tokens, ∃ back,
      slice? source.toList (t.location.offsetIn source.toList) (byteLength source.toList)
        = some (t.text.toList ++ back)) ∧
    ∀ loc : Location, loc.slicedSpan? source.toList = some (loc.spanIn source.toList) ∧
      Location.Spans source (loc.spanIn source.toList) := by
  refine ⟨fun offsets hsorted hbounds => ?_, tokenizeAt?_behind (List.prefix_refl []) _,
    fun tokens hscan t ht => ?_, fun loc => ⟨loc.slicedSpan?_eq _, loc.spans_spanIn source⟩⟩
  · exact Tracker.locateAll?_behind List.nil_prefix
      (List.pairwise_cons.2 ⟨fun _ _ => Nat.zero_le _, hsorted⟩) hbounds
  · exact slice?_of_begins (begins_of_mem hscan ht).2

/-- A comment with a letter of two bytes, offsets behind it and around it, and its one token. -/
theorem locations_and_offsets_comment :
    (∃ locations, Tracker.start.locateAll? "/*é*/ x".toList [2, 4, 8] = some locations ∧
      locations.map (·.offsetIn "/*é*/ x".toList) = [2, 4, 8]) ∧
    tokenize "/*é*/ x" = .ok [⟨.identifier, "x", .of 1 7⟩] ∧
    ∃ back, slice? "/*é*/ x".toList ((Location.of 1 7).offsetIn "/*é*/ x".toList)
      (byteLength "/*é*/ x".toList) = some ("x".toList ++ back) := by
  have hscan : tokenize "/*é*/ x" = .ok [⟨.identifier, "x", .of 1 7⟩] := by cbv
  obtain ⟨hlocate, -, htokens, -⟩ := locations_and_offsets "/*é*/ x"
  refine ⟨hlocate [2, 4, 8] (by simp) ?_, hscan, htokens _ hscan _ List.mem_cons_self⟩
  simp only [List.forall_mem_cons, isBoundary_iff]
  exact ⟨⟨['/', '*'], ['é', '*', '/', ' ', 'x'], by simp, by decide⟩,
    ⟨['/', '*', 'é'], ['*', '/', ' ', 'x'], by simp, by decide⟩,
    ⟨['/', '*', 'é', '*', '/', ' ', 'x'], [], by simp, by decide⟩, by simp⟩

end ExprLang
