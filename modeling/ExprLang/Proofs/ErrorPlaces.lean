/-
  ERROR PLACES: every error of a program stands at a visible character of its text.

  The lexer puts a token at the position behind the text that it has read so far, and what it reads
  there is no white space; its own errors stand where it stops.

  The later stages make up no locations.  This is read off what they do with moved tokens: suppose
  that a map of locations leaves those of all tokens alone.  Then it leaves the tokens alone, hence
  the tree, hence each error.  Since the map can do what it likes with any other location, the
  location of an error is that of a token.
-/
import Mathlib
import ExprLang.Proofs.LexicalGrammar
import ExprLang.Proofs.MovedTokens
import ExprLang.Proofs.RelabeledPasses
import ExprLang.Proofs.SourceNames

namespace ExprLang

/-- A character other than white space stands at a location of a text. -/
def Location.Visible (text : List Char) (loc : Location) : Prop :=
  ∃ front c back, text = front ++ c :: back ∧ isSpace c = false ∧ loc = .known (.behind front)

/-! ## The lexer -/

/-- What `scan` finds at a location of a text. -/
def Location.Scans (text : List Char) (loc : Location) (found : Scan) : Prop :=
  ∃ front rest, text = front ++ rest ∧ scan rest = found ∧ loc = .known (.behind front)

/-- What is found where the lexer fails. -/
def LexError.scanned : LexError → Scan
  | .unexpectedCharacter c _ => .unexpected c
  | .unterminatedComment _ => .unclosed

/-- The tokens of a text are found where they say, and so is the error when it has none. -/
theorem scans_of_tokenizeFrom (front text : List Char) :
    (∀ tokens, tokenizeFrom (.behind front) text = .ok tokens → ∀ t ∈ tokens,
      ∃ rest, t.location.Scans (front ++ text) (.token t.kind t.text.toList rest)) ∧
    ∀ e, tokenizeFrom (.behind front) text = .error e →
      e.location.Scans (front ++ text) e.scanned := by
  -- the lexer counts on from the front, so the induction is for every front
  generalize hhere : Position.behind front = here
  fun_induction tokenizeFrom here text generalizing front with
  | case1 here text hscan => simp
  | case2 here text skipped rest hscan ih =>
    subst hhere
    rw [← (scan_gap hscan).1, ← List.append_assoc]
    exact ih (front ++ skipped) (Position.after_behind front skipped).symm
  | case3 here text kind spelling rest hscan ih =>
    subst hhere
    obtain ⟨hok, herror⟩ := ih (front ++ spelling) (Position.after_behind front spelling).symm
    rw [List.append_assoc, (scan_token hscan).1] at hok herror
    cases hrest : tokenizeFrom ((Position.behind front).after spelling) rest with
    | ok tokens =>
      refine ⟨fun all hall => ?_, by simp [Except.map]⟩
      obtain rfl := Except.ok.inj hall
      refine List.forall_mem_cons.2 ⟨⟨rest, front, text, rfl, ?_, rfl⟩, hok tokens hrest⟩
      simpa only [String.toList_ofList] using hscan
    | error e => simpa [Except.map] using herror e hrest
  | case4 here text c hscan =>
    subst hhere
    refine ⟨by simp, fun e he => ?_⟩
    obtain rfl := Except.error.inj he
    exact ⟨front, text, rfl, hscan, rfl⟩
  | case5 here text hscan =>
    subst hhere
    refine ⟨by simp, fun e he => ?_⟩
    obtain rfl := Except.error.inj he
    exact ⟨front, text, rfl, hscan, rfl⟩

/-- Where no gap is found and text is left, no white space stands. -/
theorem Location.Scans.visible {text : List Char} {loc : Location} {found : Scan}
    (h : loc.Scans text found) (hgap : ∀ skipped rest, found ≠ .gap skipped rest)
    (hfinished : found ≠ .finished) : loc.Visible text := by
  obtain ⟨front, rest, rfl, rfl, rfl⟩ := h
  cases rest with
  | nil => exact absurd (by rw [scan]) hfinished
  | cons c back =>
    refine ⟨front, c, back, rfl, ?_, rfl⟩
    rw [← Bool.not_eq_true]
    exact fun hspace => hgap [c] back (scan_space hspace)

/-- The tokens of a text stand at visible characters, and so does the error when it has none. -/
theorem visible_of_tokenize (source : String) :
    (∀ tokens, tokenize source = .ok tokens → ∀ t ∈ tokens,
      t.location.Visible source.toList) ∧
    ∀ e, tokenize source = .error e → e.location.Visible source.toList := by
  obtain ⟨hok, herror⟩ := scans_of_tokenizeFrom [] source.toList
  refine ⟨fun tokens hscan t ht => ?_, fun e hscan => ?_⟩
  · obtain ⟨rest, hfound⟩ := hok tokens hscan t ht
    exact hfound.visible nofun nofun
  · have hfound := herror e hscan
    cases e with
    | unexpectedCharacter c loc => exact hfound.visible nofun nofun
    | unterminatedComment loc => exact hfound.visible nofun nofun

/-! ## The stages of a failure -/

/-- The stage that stops a program, with what the stages before it have made. -/
inductive StopsWith (source : String) : ProgramError → Prop
  | lex {d} (hscan : tokenize source = .error d) : StopsWith source (.lex d)
  | parse {tokens d} (hscan : tokenize source = .ok tokens)
      (hparse : Grammar.parse tokens = .error d) : StopsWith source (.parse d)
  | type {tokens tree d} (hscan : tokenize source = .ok tokens)
      (hparse : Grammar.parse tokens = .ok (some tree)) (htype : Typing.typeOf tree = .error d) :
      StopsWith source (.type d)
  | lowering {tokens tree ty d} (hscan : tokenize source = .ok tokens)
      (hparse : Grammar.parse tokens = .ok (some tree))
      (hlower : Lowering.generate reservedNames tree ty = .error d) : StopsWith source (.lowering d)
  | runtime {tokens tree output d} (hscan : tokenize source = .ok tokens)
      (hparse : Grammar.parse tokens = .ok (some tree))
      (hrun : (Eval.interpret tree output).1 = .error d) : StopsWith source (.runtime d)
  | malformed {problems} : StopsWith source (.malformed problems)

section Stages

variable {source : String} {e : ProgramError}

/-- The checker stops at the tokens, at the tree or at a type. -/
theorem stopsWith_of_checkProgram (h : checkProgram source = .error e) : StopsWith source e := by
  unfold checkProgram readProgram at h
  rcases hscan : tokenize source with d | tokens <;> simp only [hscan] at h
  · exact Except.error.inj h ▸ .lex hscan
  rcases hparse : Grammar.parse tokens with d | (_ | tree) <;> simp only [hparse] at h
  · exact Except.error.inj h ▸ .parse hscan hparse
  · contradiction
  rcases htype : Typing.typeOf tree with d | ty <;> simp only [htype] at h
  · exact Except.error.inj h ▸ .type hscan hparse htype
  · contradiction

/-- A program is not compiled if it is refused by one of the passes, or by the validator. -/
theorem stopsWith_of_compile (h : compile source = .error e) : StopsWith source e := by
  unfold compile at h
  rcases hcheck : checkProgram source with d | (_ | ⟨tree, ty⟩) <;> simp only [hcheck] at h
  · exact Except.error.inj h ▸ stopsWith_of_checkProgram hcheck
  · contradiction
  obtain ⟨tokens, hscan, hparse⟩ := readProgram_eq_ok.1 (checkProgram_eq_ok.1 hcheck).1
  rcases hlower : Lowering.generate reservedNames tree ty with d | code <;>
    simp only [hlower] at h
  · exact Except.error.inj h ▸ .lowering hscan hparse hlower
  · split at h
    · contradiction
    · exact Except.error.inj h ▸ .malformed

/-- A run stops where the checker does, or at a step of the evaluation. -/
theorem stopsWith_of_run {output : Output} (h : (run source output).1 = .error e) :
    StopsWith source e := by
  unfold run at h
  rcases hcheck : checkProgram source with d | (_ | ⟨tree, ty⟩) <;> simp only [hcheck] at h
  · exact Except.error.inj h ▸ stopsWith_of_checkProgram hcheck
  · contradiction
  obtain ⟨tokens, hscan, hparse⟩ := readProgram_eq_ok.1 (checkProgram_eq_ok.1 hcheck).1
  rcases hrun : Eval.interpret tree output with ⟨d | v, after⟩ <;> simp only [hrun] at h
  · exact Except.error.inj h ▸ .runtime hscan hparse (congrArg Prod.fst hrun)
  · contradiction

end Stages

/-! ## The later stages make up no locations -/

section Stays

variable {place : Location → Location} {r : Renaming}

/-- A moved parse error stands at the place where its old one was moved. -/
theorem ParseError.location_move (e : ParseError) :
    (e.move place).location = place e.location := by cases e <;> rfl

/-- A type error that was moved with its tree stands where its place went. -/
theorem TypeError.location_relabel (e : TypeError) :
    (e.relabel place r).location = place e.location := by cases e <;> rfl

/-- A lowering error that was moved with its tree stands where its place went. -/
theorem LoweringError.location_relabel (e : LoweringError) :
    (e.relabel place r).location = place e.location := by cases e <;> rfl

/-- A runtime error that was moved with its tree stands where its place went. -/
theorem RuntimeError.location_relabel (e : RuntimeError) :
    (e.relabel place r).location = place e.location := by cases e <;> rfl

variable {tokens : List Token} (hstay : ∀ t ∈ tokens, place t.location = t.location)

include hstay

/-- If the places of all tokens stay, moving changes nothing in what the parser answers. -/
theorem parse_stays : Grammar.parse tokens =
    ((Grammar.parse tokens).map (Option.map (Expr.move place))).mapError
      (ParseError.move place) := by
  have htokens : tokens.map (Token.move place) = tokens :=
    (List.map_congr_left fun t ht => by simp only [Token.move, hstay t ht, id]).trans
      (List.map_id tokens)
  rw [← Grammar.parse_move, htokens]

/-- Then nothing of the tree moves either. -/
theorem tree_stays {tree : Expr} (hparse : Grammar.parse tokens = .ok (some tree)) :
    tree.relabel place .none = tree := by
  have hstays := parse_stays hstay
  rw [hparse] at hstays
  exact (Option.some.inj (Except.ok.inj hstays)).symm

/-- A map that leaves the locations of all tokens alone does so with the location of an error. -/
theorem location_stays {source : String} {e : ProgramError} {loc : Location}
    (hscan : tokenize source = .ok tokens) (hstops : StopsWith source e)
    (hloc : e.location? = some loc) : place loc = loc := by
  cases hstops with
  | lex hscan' => simp [hscan] at hscan'
  | malformed => contradiction
  | parse hscan' hparse =>
    obtain rfl := Except.ok.inj (hscan.symm.trans hscan')
    obtain rfl := Option.some.inj hloc
    have hstays := parse_stays hstay
    rw [hparse] at hstays
    exact (ParseError.location_move _).symm.trans (congrArg _ (Except.error.inj hstays).symm)
  | type hscan' hparse htype =>
    obtain rfl := Except.ok.inj (hscan.symm.trans hscan')
    obtain rfl := Option.some.inj hloc
    have hstays := Typing.typeOf_relabel place .none (Grammar.fits_of_parse_any hparse)
    rw [tree_stays hstay hparse, htype] at hstays
    exact (TypeError.location_relabel _).symm.trans (congrArg _ (Except.error.inj hstays).symm)
  | @lowering _ _ ty _ hscan' hparse hlower =>
    obtain rfl := Except.ok.inj (hscan.symm.trans hscan')
    obtain rfl := Option.some.inj hloc
    have hstays := Lowering.generate_relabel place .none (Grammar.fits_of_parse_any hparse) ty
    rw [tree_stays hstay hparse, hlower] at hstays
    exact (LoweringError.location_relabel _).symm.trans
      (congrArg _ (Except.error.inj hstays).symm)
  | @runtime _ _ output _ hscan' hparse hrun =>
    obtain rfl := Except.ok.inj (hscan.symm.trans hscan')
    obtain rfl := Option.some.inj hloc
    have hstays := Eval.interpret_relabel place .none (Grammar.fits_of_parse_any hparse) output
    rw [tree_stays hstay hparse] at hstays
    have hvalue := congrArg Prod.fst hstays
    rw [hrun] at hvalue
    exact (RuntimeError.location_relabel _).symm.trans
      (congrArg _ (Except.error.inj hvalue).symm)

end Stays

/-! ## Errors stand where tokens do -/

/-- A location that stays wherever those of the tokens stay is one of them. -/
theorem mem_locations_of_stays {tokens : List Token} {loc : Location}
    (h : ∀ place : Location → Location, (∀ t ∈ tokens, place t.location = t.location) →
      place loc = loc) : loc ∈ tokens.map Token.location := by
  by_contra hnone
  obtain ⟨other, hother⟩ : ∃ other, other ≠ loc := by
    cases loc with
    | known p => exact ⟨.synthetic, by simp⟩
    | synthetic => exact ⟨.start, by simp [Location.start]⟩
  -- a map that moves nothing but this location
  obtain ⟨place, hmoves, hleaves⟩ :
      ∃ place : Location → Location, place loc ≠ loc ∧ ∀ l, l ≠ loc → place l = l :=
    ⟨fun l => if l = loc then other else l, by simpa using hother, fun l hl => if_neg hl⟩
  exact hmoves (h place fun t ht => hleaves t.location fun h => hnone (List.mem_map.2 ⟨t, ht, h⟩))

/-- The location of an error behind the lexer is that of a token. -/
theorem mem_locations_of_stopsWith {source : String} {tokens : List Token} {e : ProgramError}
    {loc : Location} (hscan : tokenize source = .ok tokens) (hstops : StopsWith source e)
    (hloc : e.location? = some loc) : loc ∈ tokens.map Token.location :=
  mem_locations_of_stays fun _ hstay => location_stays hstay hscan hstops hloc

/-- Every error with a location stands at a visible character of the text. -/
theorem visible_of_stopsWith {source : String} {e : ProgramError} {loc : Location}
    (hstops : StopsWith source e) (hloc : e.location? = some loc) : loc.Visible source.toList := by
  obtain ⟨hok, herror⟩ := visible_of_tokenize source
  rcases hscan : tokenize source with d | tokens
  · obtain rfl : e = .lex d := by
      cases hstops with
      | lex hscan' => rw [Except.error.inj (hscan.symm.trans hscan')]
      | malformed => contradiction
      | _ hscan' => simp [hscan] at hscan'
    obtain rfl := Option.some.inj hloc
    exact herror d hscan
  · obtain ⟨t, ht, rfl⟩ := List.mem_map.1 (mem_locations_of_stopsWith hscan hstops hloc)
    exact hok tokens hscan t ht

end ExprLang
