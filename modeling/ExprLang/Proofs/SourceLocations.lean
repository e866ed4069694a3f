/-
  SOURCE LOCATIONS: whatever has a location stands where a token of its text starts.

  The lexer puts every token at the position behind the text in front of it.  The nodes of the
  tree and the instructions of the code have their locations from the tokens: a map of locations
  that leaves those of the tokens alone leaves the tree and the code alone, and with them each
  node and each instruction.  For errors the same was said in `mem_locations_of_stopsWith`; only
  the lexer has errors of its own.
-/
import ExprLang.Expr.Nodes
import ExprLang.Proofs.ErrorPlaces
import ExprLang.Proofs.ReportLines
import ExprLang.Proofs.UniqueReading

namespace ExprLang

/-! ## Places in a text -/

/-- A piece of a text starts at a location. -/
def Location.Begins (text piece : List Char) (loc : Location) : Prop :=
  ∃ front back, text = front ++ (piece ++ back) ∧ loc = .known (.behind front)

/-- A token of a text starts at a location. -/
def Location.BeginsToken (source : String) (loc : Location) : Prop :=
  ∃ tokens, tokenize source = .ok tokens ∧ ∃ t ∈ tokens, t.location = loc ∧ t.text ≠ "" ∧
    loc.Begins source.toList t.text.toList

/-- The text that an error of the lexer is about starts at its location. -/
def LexError.Begins (text : List Char) : LexError → Prop
  | .unexpectedCharacter c loc => loc.Begins text [c]
  | .unterminatedComment loc => loc.Begins text ['/', '*']

/-- An error stands at a token of the text; one of the lexer stands at what it is about. -/
def ProgramError.Begins (source : String) : ProgramError → Prop
  | .lex e => e.Begins source.toList
  | .parse e => e.location.BeginsToken source
  | .type e => e.location.BeginsToken source
  | .lowering e => e.location.BeginsToken source
  | .runtime e => e.location.BeginsToken source
  | .malformed _ => True

/-- The byte offset of a location lies in front of the end of a text. -/
def Location.InText (source : String) (loc : Location) : Prop :=
  loc.offsetIn source.toList < byteLength source.toList

/-- Where something starts the text has not ended. -/
theorem Location.Begins.offsetIn_lt {text piece : List Char} {loc : Location}
    (h : loc.Begins text piece) (hpiece : piece ≠ []) : loc.offsetIn text < byteLength text := by
  obtain ⟨front, back, rfl, rfl⟩ := h
  have hpos : 0 < byteLength (piece ++ back) :=
    Nat.lt_of_lt_of_le (List.length_pos_iff.2 (by simp [hpiece])) (length_le_byteLength _)
  rw [offsetIn_behind, byteLength_append front]
  omega

/-- What the lexer complains about starts where it says. -/
theorem LexError.begins_of_scans {text : List Char} {e : LexError}
    (h : e.location.Scans text e.scanned) : e.Begins text := by
  cases e with
  | unexpectedCharacter c loc =>
    obtain ⟨front, rest, rfl, hscan, rfl⟩ := h
    obtain ⟨behind, rfl, -⟩ := holds_of_scan.2.1 c hscan
    exact ⟨front, behind, rfl, rfl⟩
  | unterminatedComment loc =>
    obtain ⟨front, rest, rfl, hscan, rfl⟩ := h
    obtain ⟨inside, rfl, -⟩ := holds_of_scan.2.2 hscan
    exact ⟨front, inside, rfl, rfl⟩

section

variable {source : String} {tokens : List Token} {loc : Location}

/-- The lexer's tokens start where they say. -/
theorem begins_of_mem (hscan : tokenize source = .ok tokens) {t : Token} (ht : t ∈ tokens) :
    t.text ≠ "" ∧ t.location.Begins source.toList t.text.toList := by
  obtain ⟨after, front, rest, htext, hfound, hplace⟩ :=
    (scans_of_tokenizeFrom [] source.toList).1 tokens hscan t ht
  obtain ⟨hsplit, hne⟩ := scan_token hfound
  refine ⟨fun hempty => hne (by rw [hempty]; rfl), ?_⟩
  exact ⟨front, after, by rw [hsplit]; exact htext, hplace⟩

/-- The location of each token is one where a token begins. -/
theorem beginsToken_of_mem (hscan : tokenize source = .ok tokens)
    (hloc : loc ∈ tokens.map Token.location) : loc.BeginsToken source := by
  obtain ⟨t, ht, rfl⟩ := List.mem_map.1 hloc
  exact ⟨tokens, hscan, t, ht, rfl, begins_of_mem hscan ht⟩

/-- Where a token begins, there is text. -/
theorem Location.BeginsToken.inText (h : loc.BeginsToken source) : loc.InText source := by
  obtain ⟨_, _, t, _, _, hne, hbegins⟩ := h
  exact hbegins.offsetIn_lt (by simpa using hne)

/-- So there is where the lexer gives up. -/
theorem LexError.Begins.inText {e : LexError} (h : e.Begins source.toList) :
    e.location.InText source := by
  cases e with
  | unexpectedCharacter c loc => exact Location.Begins.offsetIn_lt h (List.cons_ne_nil _ _)
  | unterminatedComment loc => exact Location.Begins.offsetIn_lt h (List.cons_ne_nil _ _)

end

/-! ## Trees and code -/

namespace Expr

variable {place : Location → Location} {r : Renaming}

/-- The subtrees of a moved tree are those of the old one, moved. -/
theorem children_relabel (e : Expr) :
    (e.relabel place r).children = e.children.map (relabel place r) := by
  cases e <;> simp [relabel, children, relabelAll_eq_map]

/-- A tree that stays under a map of locations has only nodes that stay. -/
theorem stays_node {e : Expr} (h : e.relabel place r = e) :
    ∀ node ∈ e.nodes, place node.location = node.location := by
  intro node hnode
  have hstays : node.relabel place r = node := by
    refine inherit (fun e => e.relabel place r = e) (fun e he child hchild => ?_) h node hnode
    have hchildren : (e.relabel place r).children = e.children.map (relabel place r) :=
      e.children_relabel
    rw [he, ← List.map_id e.children, List.map_map] at hchildren
    exact (List.map_inj_left.1 hchildren child hchild).symm
  calc place node.location = (node.relabel place r).location := (location_relabel node).symm
    _ = node.location := by rw [hstays]

end Expr

section

variable {source : String} {tokens : List Token} {tree : Expr} {loc : Location}

/-- Every node of a parsed tree stands where a token of its source begins. -/
theorem beginsToken_of_node (hscan : tokenize source = .ok tokens)
    (hparse : Grammar.parse tokens = .ok (some tree)) :
    ∀ node ∈ tree.nodes, node.location.BeginsToken source := by
  intro node hnode
  refine beginsToken_of_mem hscan (mem_locations_of_stays fun place hstay => ?_)
  exact Expr.stays_node (tree_stays hstay hparse) node hnode

/-- Every instruction stands where a node does. -/
theorem beginsToken_of_instr {ty : Ty} {code : List Instr} (hscan : tokenize source = .ok tokens)
    (hparse : Grammar.parse tokens = .ok (some tree))
    (hcode : Lowering.generate reservedNames tree ty = .ok code) :
    ∀ i ∈ code, i.location.BeginsToken source := by
  intro i hi
  refine beginsToken_of_mem hscan (mem_locations_of_stays fun place hstay => ?_)
  have hstays := Lowering.generate_relabel place .none (Grammar.fits_of_parse_any hparse) ty
  rw [tree_stays hstay hparse, hcode] at hstays
  -- a map that moves no token moves no instruction
  have hmap : code.map id = code.map (Instr.move place) := by
    rw [List.map_id]
    exact Except.ok.inj hstays
  exact (congrArg Instr.location (List.map_inj_left.1 hmap i hi)).symm

/-- Whatever stage stops a program, its error stands in the text. -/
theorem begins_of_stopsWith {e : ProgramError} (hstops : StopsWith source e) : e.Begins source := by
  have hlater {tokens : List Token} {loc : Location} (hscan : tokenize source = .ok tokens)
      (hloc : e.location? = some loc) : loc.BeginsToken source :=
    beginsToken_of_mem hscan (mem_locations_of_stopsWith hscan hstops hloc)
  cases hstops with
  | lex hscan => exact LexError.begins_of_scans ((scans_of_tokenizeFrom [] source.toList).2 _ hscan)
  | parse hscan => exact hlater hscan rfl
  | type hscan => exact hlater hscan rfl
  | lowering hscan => exact hlater hscan rfl
  | runtime hscan => exact hlater hscan rfl
  | malformed => trivial

/-- An error that has a location has one in the text. -/
theorem ProgramError.Begins.inText {e : ProgramError} (h : e.Begins source)
    (hloc : e.location? = some loc) : loc.InText source := by
  cases e with
  | lex e => exact Option.some.inj hloc ▸ LexError.Begins.inText h
  | malformed => contradiction
  | _ e => exact Option.some.inj hloc ▸ Location.BeginsToken.inText h

/-- The code of a text is made from its tree, if it has one. -/
theorem beginsToken_of_compile {program : Compiled} (h : compile source = .ok program) :
    ∀ i ∈ program.code, i.location.BeginsToken source := by
  unfold compile at h
  rcases hcheck : checkProgram source with d | (_ | ⟨tree, ty⟩) <;> simp only [hcheck] at h
  · contradiction
  · exact Except.ok.inj h ▸ nofun
  obtain ⟨tokens, hscan, hparse⟩ := readProgram_eq_ok.1 (checkProgram_eq_ok.1 hcheck).1
  rcases hcode : Lowering.generate reservedNames tree ty with d | code <;> simp only [hcode] at h
  · contradiction
  split at h
  · exact Except.ok.inj h ▸ beginsToken_of_instr hscan hparse hcode
  · contradiction

end

/-- Every location that comes out of a text is the place of one of its tokens, and an error of the
    lexer stands at what it is about: nothing stands behind the end of the text. -/
theorem locations_of_source (source : String) :
    (∀ tree, readProgram source = .ok (some tree) → ∀ node ∈ tree.nodes,
      node.location.BeginsToken source ∧ node.location.InText source) ∧
    (∀ program, compile source = .ok program → ∀ i ∈ program.code,
      i.location.BeginsToken source ∧ i.location.InText source) ∧
    ∀ e, (compile source = .error e ∨ ∃ output, (run source output).1 = .error e) →
      e.Begins source ∧ ∀ loc, e.location? = some loc → loc.InText source := by
  refine ⟨fun tree hread node hnode => ?_, fun program hcompile i hi => ?_, fun e he => ?_⟩
  · obtain ⟨tokens, hscan, hparse⟩ := readProgram_eq_ok.1 hread
    have hbegins := beginsToken_of_node hscan hparse node hnode
    exact ⟨hbegins, hbegins.inText⟩
  · have hbegins := beginsToken_of_compile hcompile i hi
    exact ⟨hbegins, hbegins.inText⟩
  · have hstops : StopsWith source e := by
      rcases he with hcompile | ⟨output, hrun⟩
      · exact stopsWith_of_compile hcompile
      · exact stopsWith_of_run hrun
    have hbegins := begins_of_stopsWith hstops
    exact ⟨hbegins, fun loc hloc => hbegins.inText hloc⟩

set_option maxRecDepth 4000 in
/-- A division by zero in the second line, and an open comment. -/
theorem locations_of_source_division :
    (∃ program, compile "\n7 / 0" = .ok program ∧ program.code.length = 4 ∧
      ∀ i ∈ program.code, i.location.BeginsToken "\n7 / 0" ∧ i.location.InText "\n7 / 0") ∧
    (run "\n7 / 0" {}).1 = .error (.runtime (.fault .divisionByZero (.of 2 3))) ∧
    (Location.of 2 3).BeginsToken "\n7 / 0" ∧ (Location.of 2 3).InText "\n7 / 0" ∧
    compile "7 /*" = .error (.lex (.unterminatedComment (.of 1 3))) ∧
    (Location.of 1 3).Begins "7 /*".toList ['/', '*'] ∧ (Location.of 1 3).InText "7 /*" := by
  have hcompile : compile "\n7 / 0" = .ok ⟨some (.binary (.of 2 3) "/" (.int (.of 2 1) 7)
      (.int (.of 2 5) 0)), .int,
      [⟨.loadInt 7 ⟨"x1"⟩, .of 2 1⟩, ⟨.loadInt 0 ⟨"x2"⟩, .of 2 5⟩,
        ⟨.call ⟨"/"⟩ [⟨"x1"⟩, ⟨"x2"⟩] ⟨"x3"⟩, .of 2 3⟩,
        ⟨.call ⟨"print_int"⟩ [⟨"x3"⟩] ⟨"x4"⟩, .of 2 3⟩], reservedNames⟩ := by cbv
  have hrun : run "\n7 / 0" {} = (.error (.runtime (.fault .divisionByZero (.of 2 3))), {}) := by
    cbv
  have hscan : tokenize "7 /*" = .error (.unterminatedComment (.of 1 3)) := by
    with_unfolding_all rfl
  have hopen : compile "7 /*" = .error (.lex (.unterminatedComment (.of 1 3))) := by
    simp only [compile, checkProgram, readProgram, hscan]
  obtain ⟨-, hcode, herror⟩ := locations_of_source "\n7 / 0"
  obtain ⟨hdivision, hin⟩ := herror _ (.inr ⟨{}, congrArg Prod.fst hrun⟩)
  obtain ⟨hcomment, hin'⟩ := (locations_of_source "7 /*").2.2 _ (.inl hopen)
  exact ⟨⟨_, hcompile, rfl, hcode _ hcompile⟩, congrArg Prod.fst hrun, hdivision, hin _ rfl,
    hopen, hcomment, hin' _ rfl⟩

end ExprLang
