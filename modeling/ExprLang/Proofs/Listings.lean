/-
  LISTINGS: the text of a piece of code says what the code is.

  A name is LEGIBLE when it is not empty and no delimiter stands in it.  With legible names the text
  of an instruction can be read back: a keyword in front of the first parenthesis says which form it
  has, commas separate the fields, and a last parenthesis closes it (`Action.chars_eq`).  So a
  listing splits into its lines in one way only, and fixes the code up to locations.

  Lowering uses no other names.  Variables are reserved or numbered, as in all tidy code, and labels
  are numbered behind a stem, as every sequence of draft steps leaves them.
-/
import ExprLang.Proofs.BuiltinWrites
import ExprLang.Proofs.DecimalNumerals
import ExprLang.Proofs.Delimiting
import ExprLang.Proofs.DraftSteps

namespace ExprLang

open Delimiting

/-! ## Legible names -/

/-- A name that a listing shows unmistakably. -/
def Legible (name : String) : Prop := name ≠ "" ∧ IsWord name.toList

instance (name : String) : Decidable (Legible name) :=
  inferInstanceAs (Decidable (name ≠ "" ∧ IsWord name.toList))

/-- An instruction whose variables and labels have legible names. -/
def Instr.Legible (i : Instr) : Prop :=
  (∀ x ∈ i.reads ++ i.writes.toList, ExprLang.Legible x.name) ∧
    ∀ l ∈ i.labels, ExprLang.Legible l.name

/-- No digit separates anything. -/
theorem isDelimiter_of_isDigit {c : Char} (hc : c.isDigit = true) : isDelimiter c = false := by
  rw [isDelimiter, List.contains_eq_mem, decide_eq_false_iff_not]
  intro hmem
  have hdelimiters : ∀ m ∈ [',', '(', ')', '[', ']', ' ', '\n'], m.isDigit = false := by simp
  rw [hdelimiters c hmem] at hc
  contradiction

/-- So a number in decimal is a word. -/
theorem isWord_digits (k : Nat) : IsWord (toString k).toList := by
  rw [Nat.toString_eq_ofList_toDigits, String.toList_ofList]
  exact fun c hc => isDelimiter_of_isDigit (Decimal.isDigit_toDigits hc)

/-- Words may be put together. -/
theorem isWord_append {w v : List Char} (hw : IsWord w) (hv : IsWord v) :
    IsWord (w ++ v) := fun c hc => (List.mem_append.1 hc).elim (hw c) (hv c)

/-- The sign of a negative integer is no delimiter either. -/
theorem isWord_ofInt64 (n : Int64) : IsWord (Decimal.ofInt64 n).toList := by
  rw [Decimal.ofInt64, Decimal.toList_ofInt]
  refine isWord_append ?_ fun c hc => isDelimiter_of_isDigit (Decimal.isDigit_toDigits hc)
  unfold Decimal.sign
  split
  · simp [IsWord, isDelimiter]
  · simp [IsWord]

/-- Both Booleans are words. -/
theorem isWord_boolText (b : Bool) : IsWord (boolText b).toList := by
  cases b <;> simp [IsWord, boolText, isDelimiter]

/-- And two different ones. -/
theorem boolText_injective {a b : Bool} (h : boolText a = boolText b) : a = b := by
  cases a <;> cases b <;> simp_all [boolText]

/-- A legible name with a number behind it. -/
theorem legible_append_toString {stem : String} (h : Legible stem) (k : Nat) :
    Legible (stem ++ toString k) := by
  refine ⟨?_, ?_⟩
  · simp [h.1]
  · rw [String.toList_append]
    exact isWord_append h.2 (isWord_digits k)

/-- A variable of the language is a letter and a number. -/
theorem legible_numbered (k : Nat) : Legible (Var.numbered k).name :=
  legible_append_toString (show Legible "x" by decide) k

/-- A label is a stem and a number. -/
theorem legible_label_numbered {stem : String} (h : stem ∈ Draft.stems) (k : Nat) :
    Legible (Label.numbered stem k).name := by
  have hstems : ∀ stem ∈ Draft.stems, Legible stem := by decide
  exact legible_append_toString (hstems stem h) k

/-! ## The text of an instruction -/

namespace Var

variable {x y : Var}

/-- The characters of the name of a variable. -/
def chars (x : Var) : List Char := x.name.toList

/-- Without delimiters around it the text of a variable is its name. -/
theorem eq_of_chars (h : x.chars = y.chars) : x = y := by
  obtain ⟨n⟩ := x
  obtain ⟨m⟩ := y
  exact congrArg Var.mk (String.toList_inj.1 h)

/-- Behind a legible name there is a delimiter, so one name cannot be a longer one cut short. -/
theorem toldApart_chars (hx : Legible x.name) (hy : Legible y.name) : ToldApart chars x y := by
  intro r s hr hs h
  obtain ⟨hchars, hrest⟩ := word_eq hx.2 hy.2 hr hs h
  exact ⟨eq_of_chars hchars, hrest⟩

/-- Something stands between the brackets of a list of variables, unless it is empty. -/
theorem beginsOtherThan_chars (hx : Legible x.name) : BeginsOtherThan ']' x.chars := by
  rcases hchars : x.chars with _ | ⟨c, rest⟩
  · exact absurd (String.toList_eq_nil_iff.1 hchars) hx.1
  · refine ⟨c, rest, rfl, ?_⟩
    rintro rfl
    have hdelimiter := hx.2 ']' (show ']' ∈ x.chars by simp [hchars])
    exact absurd hdelimiter (by decide)

end Var

namespace Label

variable {l m : Label} {r s : List Char}

/-- The characters of the text of a label. -/
def chars (l : Label) : List Char := "Label".toList ++ '(' :: (l.name.toList ++ [')'])

/-- The text of a label is its name in parentheses. -/
theorem toList_text (l : Label) : l.text.toList = l.chars := by
  simp [text, chars]

/-- A label is told apart from other labels, whatever follows. -/
theorem chars_eq (hl : Legible l.name) (hm : Legible m.name) (h : l.chars ++ r = m.chars ++ s) :
    l = m ∧ r = s := by
  simp only [chars, List.append_assoc, List.cons_append, List.append_cancel_left_eq,
    List.cons.injEq, true_and] at h
  obtain ⟨hname, hrest⟩ := word_delimiter_eq (by decide) hl.2 hm.2 h
  obtain ⟨n⟩ := l
  obtain ⟨n'⟩ := m
  exact ⟨congrArg Label.mk (String.toList_inj.1 hname), hrest⟩

end Label

namespace Action

/-- The words that a listing begins an instruction with. -/
def keywords : List String :=
  ["LoadIntConst", "LoadBoolConst", "Copy", "Call", "Label", "Jump", "CondJump"]

/-- The one of them that stands for the form of an instruction. -/
def keyword : Action → String
  | .loadInt _ _ => "LoadIntConst"
  | .loadBool _ _ => "LoadBoolConst"
  | .copy _ _ => "Copy"
  | .call _ _ _ => "Call"
  | .label _ => "Label"
  | .jump _ => "Jump"
  | .branch _ _ _ => "CondJump"

/-- The fields of an instruction, which stand in parentheses. -/
def fields : Action → List Char
  | .loadInt n dest => (Decimal.ofInt64 n).toList ++ ',' :: ' ' :: dest.chars
  | .loadBool b dest => (boolText b).toList ++ ',' :: ' ' :: dest.chars
  | .copy source dest => source.chars ++ ',' :: ' ' :: dest.chars
  | .call callee arguments dest =>
    callee.chars ++ ',' :: ' ' :: '[' :: (listed Var.chars arguments ++ ']' :: ',' :: ' ' ::
      dest.chars)
  | .label l => l.name.toList
  | .jump target => target.chars
  | .branch condition thenTarget elseTarget =>
    condition.chars ++ ',' :: ' ' :: (thenTarget.chars ++ ',' :: ' ' :: elseTarget.chars)

/-- The characters of the text of an instruction. -/
def chars (a : Action) : List Char := a.keyword.toList ++ '(' :: (a.fields ++ [')'])

/-- The keyword of an instruction ends at its parenthesis. -/
theorem isWord_keyword (a : Action) : IsWord a.keyword.toList := by
  have hwords : ∀ k ∈ keywords, IsWord k.toList := by decide
  exact hwords _ (by cases a <;> simp [keyword, keywords])

end Action

/-- The location of an instruction is not shown. -/
theorem Instr.toList_text (i : Instr) : i.text.toList = i.action.chars := by
  obtain ⟨action, loc⟩ := i
  cases action <;>
    simp only [text, Action.chars, Action.keyword, Action.fields, String.toList_append,
      Label.toList_text, Var.chars, toList_intercalate, List.append_assoc, List.cons_append] <;>
    rfl

/-! ## Reading the text of an instruction -/

section

variable {x y : Var} {r s : List Char}

/-- A variable in front of a comma. -/
theorem Var.comma_eq (hx : Legible x.name) (hy : Legible y.name)
    (h : x.chars ++ ',' :: ' ' :: r = y.chars ++ ',' :: ' ' :: s) : x = y ∧ r = s := by
  obtain ⟨hchars, hrest⟩ := word_comma_eq hx.2 hy.2 h
  exact ⟨eq_of_chars hchars, hrest⟩

/-- A variable in front of the parenthesis that closes an instruction. -/
theorem Var.close_eq (hx : Legible x.name) (hy : Legible y.name)
    (h : x.chars ++ ')' :: r = y.chars ++ ')' :: s) : x = y ∧ r = s := by
  obtain ⟨hchars, hrest⟩ := word_delimiter_eq (by decide) hx.2 hy.2 h
  exact ⟨eq_of_chars hchars, hrest⟩

end

/-- Two instructions of one form with the same fields are one action. -/
theorem Action.fields_eq {a b : Action} {loc loc' : Location} {r s : List Char}
    (ha : (⟨a, loc⟩ : Instr).Legible) (hb : (⟨b, loc'⟩ : Instr).Legible)
    (hkeyword : a.keyword = b.keyword) (h : a.fields ++ ')' :: r = b.fields ++ ')' :: s) :
    a = b ∧ r = s := by
  simp only [Instr.Legible, Instr.labels, List.forall_mem_append] at ha hb
  obtain ⟨⟨hreads, hwrites⟩, hdefines, htargets⟩ := ha
  obtain ⟨⟨hreads', hwrites'⟩, hdefines', htargets'⟩ := hb
  -- instructions of different forms have different keywords
  cases a with
  | loadInt n dest =>
    cases b with
    | loadInt n' dest' =>
      simp only [fields, List.append_assoc, List.cons_append] at h
      obtain ⟨hn, hdest⟩ := word_comma_eq (isWord_ofInt64 n) (isWord_ofInt64 n') h
      obtain ⟨rfl, hrest⟩ := Var.close_eq (hwrites dest (by simp [Instr.writes]))
        (hwrites' dest' (by simp [Instr.writes])) hdest
      obtain rfl := Decimal.ofInt64_injective (String.toList_inj.1 hn)
      exact ⟨rfl, hrest⟩
    | _ => simp [keyword] at hkeyword
  | loadBool v dest =>
    cases b with
    | loadBool v' dest' =>
      simp only [fields, List.append_assoc, List.cons_append] at h
      obtain ⟨hv, hdest⟩ := word_comma_eq (isWord_boolText v) (isWord_boolText v') h
      obtain ⟨rfl, hrest⟩ := Var.close_eq (hwrites dest (by simp [Instr.writes]))
        (hwrites' dest' (by simp [Instr.writes])) hdest
      obtain rfl := boolText_injective (String.toList_inj.1 hv)
      exact ⟨rfl, hrest⟩
    | _ => simp [keyword] at hkeyword
  | copy source dest =>
    cases b with
    | copy source' dest' =>
      simp only [fields, List.append_assoc, List.cons_append] at h
      obtain ⟨rfl, hdest⟩ := Var.comma_eq (hreads source (by simp [Instr.reads]))
        (hreads' source' (by simp [Instr.reads])) h
      obtain ⟨rfl, hrest⟩ := Var.close_eq (hwrites dest (by simp [Instr.writes]))
        (hwrites' dest' (by simp [Instr.writes])) hdest
      exact ⟨rfl, hrest⟩
    | _ => simp [keyword] at hkeyword
  | call callee arguments dest =>
    cases b with
    | call callee' arguments' dest' =>
      simp only [fields, List.append_assoc, List.cons_append] at h
      obtain ⟨hcallee, harguments⟩ := List.forall_mem_cons.1 hreads
      obtain ⟨hcallee', harguments'⟩ := List.forall_mem_cons.1 hreads'
      obtain ⟨rfl, hlist⟩ := Var.comma_eq hcallee hcallee' h
      obtain ⟨rfl, hdest⟩ := listed_eq (by decide) (by decide)
        (fun x hx y hy => Var.toldApart_chars (harguments x hx) (harguments' y hy))
        (fun x hx => Var.beginsOtherThan_chars (harguments x hx))
        (fun y hy => Var.beginsOtherThan_chars (harguments' y hy)) (List.cons.inj hlist).2
      simp only [List.cons.injEq, true_and] at hdest
      obtain ⟨rfl, hrest⟩ := Var.close_eq (hwrites dest (by simp [Instr.writes]))
        (hwrites' dest' (by simp [Instr.writes])) hdest
      exact ⟨rfl, hrest⟩
    | _ => simp [keyword] at hkeyword
  | label l =>
    cases b with
    | label l' =>
      obtain ⟨hname, hrest⟩ := word_delimiter_eq (by decide)
        (hdefines l (by simp [Instr.defines])).2 (hdefines' l' (by simp [Instr.defines])).2 h
      obtain ⟨n⟩ := l
      obtain ⟨n'⟩ := l'
      obtain rfl := String.toList_inj.1 hname
      exact ⟨rfl, hrest⟩
    | _ => simp [keyword] at hkeyword
  | jump target =>
    cases b with
    | jump target' =>
      obtain ⟨rfl, hclose⟩ := Label.chars_eq (htargets target (by simp [Instr.targets]))
        (htargets' target' (by simp [Instr.targets])) h
      exact ⟨rfl, (List.cons.inj hclose).2⟩
    | _ => simp [keyword] at hkeyword
  | branch condition thenTarget elseTarget =>
    cases b with
    | branch condition' thenTarget' elseTarget' =>
      simp only [fields, List.append_assoc, List.cons_append] at h
      obtain ⟨rfl, hthen⟩ := Var.comma_eq (hreads condition (by simp [Instr.reads]))
        (hreads' condition' (by simp [Instr.reads])) h
      obtain ⟨rfl, helse⟩ := Label.chars_eq (htargets thenTarget (by simp [Instr.targets]))
        (htargets' thenTarget' (by simp [Instr.targets])) hthen
      simp only [List.cons.injEq, true_and] at helse
      obtain ⟨rfl, hclose⟩ := Label.chars_eq (htargets elseTarget (by simp [Instr.targets]))
        (htargets' elseTarget' (by simp [Instr.targets])) helse
      exact ⟨rfl, (List.cons.inj hclose).2⟩
    | _ => simp [keyword] at hkeyword

/-- A text that begins with an instruction says which it is, and where it ends. -/
theorem Action.chars_eq {a b : Action} {loc loc' : Location} {r s : List Char}
    (ha : (⟨a, loc⟩ : Instr).Legible) (hb : (⟨b, loc'⟩ : Instr).Legible)
    (h : a.chars ++ r = b.chars ++ s) : a = b ∧ r = s := by
  simp only [chars, List.append_assoc, List.cons_append, List.nil_append] at h
  obtain ⟨hkeyword, hrest⟩ := word_delimiter_eq (by decide) a.isWord_keyword b.isWord_keyword h
  exact fields_eq ha hb (String.toList_inj.1 hkeyword) hrest

/-! ## Listings -/

/-- One instruction stands on each line. -/
theorem toList_listing (code : List Instr) :
    (listing code).toList = code.flatMap fun i => i.action.chars ++ ['\n'] := by
  simp [listing, List.flatMap_map, Instr.toList_text]

/-- Code with legible names is determined by its listing, up to locations. -/
theorem action_eq_of_listing_eq {a b : List Instr} (ha : ∀ i ∈ a, i.Legible)
    (hb : ∀ i ∈ b, i.Legible) (h : listing a = listing b) :
    a.map Instr.action = b.map Instr.action := by
  replace h := congrArg String.toList h
  rw [toList_listing, toList_listing] at h
  induction a generalizing b with
  | nil =>
    cases b with
    | nil => rfl
    | cons j b => simp [Action.chars] at h
  | cons i a ih =>
    cases b with
    | nil => simp [Action.chars] at h
    | cons j b =>
      simp only [List.flatMap_cons, List.append_assoc] at h
      obtain ⟨haction, hrest⟩ := Action.chars_eq (ha i (by simp)) (hb j (by simp)) h
      simp only [List.cons_append, List.nil_append, List.cons.injEq, true_and] at hrest
      rw [List.map_cons, List.map_cons, haction,
        ih (fun i hi => ha i (List.mem_cons_of_mem _ hi))
          (fun j hj => hb j (List.mem_cons_of_mem _ hj)) hrest]

/-- The text of an instruction leaves out its location. -/
theorem listing_eq_of_action_eq {a b : List Instr} (h : a.map Instr.action = b.map Instr.action) :
    listing a = listing b := by
  have hlines (code : List Instr) : (listing code).toList =
      (code.map Instr.action).flatMap fun action => action.chars ++ ['\n'] := by
    rw [toList_listing, List.flatMap_map]
  exact String.toList_inj.1 (by rw [hlines, hlines, h])

/-! ## The names of lowered code -/

namespace Lowering

open Draft

variable {reserved : List String} {d : Draft} {x : Var}

/-- A known variable is reserved or numbered. -/
theorem legible_of_known (hreserved : ∀ n ∈ d.reserved, Legible n) (hx : d.Known x) :
    Legible x.name := by
  rcases hx with hname | ⟨k, -, rfl⟩
  · exact hreserved _ hname
  · exact legible_numbered k

/-- Tidy code reads and writes known variables only. -/
theorem known_of_mem {d : Draft} (h : d.Tidy) {i : Instr} (hi : i ∈ d.code.toList) :
    ∀ x ∈ i.reads ++ i.writes.toList, d.Known x := by
  intro x hx
  rcases List.mem_append.1 hx with hread | hwrite
  · obtain ⟨k, hk⟩ := List.mem_iff_getElem?.1 hi
    rcases (h.ordered k i hk).1 x hread with hname | hwritten
    · exact .inl hname
    · exact h.written x (((List.take_sublist k _).filterMap Instr.writes).subset hwritten)
  · exact h.written x (List.mem_filterMap.2 ⟨i, hi, by simpa using hwrite⟩)

/-- A program is lowered in steps, like its tree. -/
theorem reaches_of_lowersProgram {program : Expr} {ty : Ty} {d' : Draft}
    (h : LowersProgram program ty d d') : Reaches true d d' := by
  have htree : ∀ {x d₁}, Lowers program d x d₁ → Reaches true d d₁ := by
    intro x d₁ hlowers
    have hwrites := writes_lower program (fun _ => rfl) d
    rwa [Leads, lower_of_lowers hlowers] at hwrites
  cases h with
  | silent _ hprogram => exact htree hprogram
  | prints _ hprogram =>
    obtain ⟨_, _, hwrote⟩ := htree hprogram
    exact (hwrote.emitNew rfl rfl).reaches

/-- As long as the reserved names are legible, so are the names of all code. -/
theorem legible_of_lowersProgram {program : Expr} {ty : Ty} (hreserved : ∀ n ∈ reserved, Legible n)
    (h : LowersProgram program ty (.start reserved) d) : ∀ i ∈ d.code.toList, i.Legible := by
  obtain ⟨htidy, -, hnames⟩ := invariants_of_lowersProgram h
  obtain ⟨xs, ls, hwrote⟩ := reaches_of_lowersProgram h
  obtain ⟨added, hcode, hadded⟩ := hwrote.code
  have hcode : d.code.toList = added := hcode
  have hlegible : ∀ n ∈ d.reserved, Legible n := by
    rw [hnames]
    exact List.forall_mem_cons.2 ⟨by decide, hreserved⟩
  intro i hi
  refine ⟨fun x hx => legible_of_known hlegible (known_of_mem htidy hi x hx), fun l hl => ?_⟩
  obtain ⟨stem, hstem, k, rfl⟩ := hwrote.numbered_of_mem l ((hadded i (hcode ▸ hi)).2 l hl)
  exact legible_label_numbered hstem k

end Lowering

/-- A text without tokens has no code. -/
theorem code_of_compile {source : String} {c : Compiled} (h : compile source = .ok c)
    (htree : c.tree = none) : c.code = [] := by
  rcases hcheck : checkProgram source with e | _ | ⟨tree, ty⟩
  · rw [compile, hcheck] at h
    contradiction
  · rw [compile, hcheck] at h
    rw [← Except.ok.inj h]
  · simp only [compile, hcheck] at h
    split at h
    · contradiction
    · split at h
      · rw [← Except.ok.inj h] at htree
        contradiction
      · contradiction

/-- All code of the compiler is legible, because the reserved names are. -/
theorem legible_of_compile {source : String} {c : Compiled} (h : compile source = .ok c) :
    ∀ i ∈ c.code, i.Legible := by
  rcases htree : c.tree with _ | tree
  · -- a text without tokens has no code
    rw [code_of_compile h htree]
    simp
  · obtain ⟨-, -, d, hprogram, -, hcode⟩ := lowersProgram_of_compile h htree
    rw [hcode]
    exact Lowering.legible_of_lowersProgram (by decide) hprogram

/-- The listing determines the code.  With legible names, pieces of code have the same listing
    exactly when their instructions are the same up to locations; and the names of compiled code are
    legible. -/
theorem listing_determines_code :
    (∀ a b : List Instr, (∀ i ∈ a, i.Legible) → (∀ i ∈ b, i.Legible) →
      (listing a = listing b ↔ a.map Instr.action = b.map Instr.action)) ∧
    ∀ (source : String) (c : Compiled), compile source = .ok c → ∀ i ∈ c.code, i.Legible :=
  ⟨fun _ _ ha hb => ⟨action_eq_of_listing_eq ha hb, listing_eq_of_action_eq⟩,
    fun _ _ h => legible_of_compile h⟩

/-- A space in front of a program moves its code, and the listing stays the same. -/
theorem listing_determines_code_moved :
    ∃ c c', compile "7" = .ok c ∧ compile " 7" = .ok c' ∧ c.code ≠ c'.code ∧
      (∀ i ∈ c.code, i.Legible) ∧ (∀ i ∈ c'.code, i.Legible) ∧
      listing c.code = listing c'.code := by
  obtain ⟨h, h'⟩ :
      (compile "7" = .ok ⟨some (.int (.known ⟨1, 1⟩) 7), .int, [⟨.loadInt 7 ⟨"x1"⟩, .known ⟨1, 1⟩⟩,
        ⟨.call ⟨"print_int"⟩ [⟨"x1"⟩] ⟨"x2"⟩, .known ⟨1, 1⟩⟩], reservedNames⟩) ∧
      (compile " 7" = .ok ⟨some (.int (.known ⟨1, 2⟩) 7), .int, [⟨.loadInt 7 ⟨"x1"⟩, .known ⟨1, 2⟩⟩,
        ⟨.call ⟨"print_int"⟩ [⟨"x1"⟩] ⟨"x2"⟩, .known ⟨1, 2⟩⟩], reservedNames⟩) :=
    ⟨by cbv, by cbv⟩
  have hlegible := listing_determines_code.2 _ _ h
  have hlegible' := listing_determines_code.2 _ _ h'
  have hmoved : [Location.known ⟨1, 1⟩, .known ⟨1, 1⟩] ≠ [.known ⟨1, 2⟩, .known ⟨1, 2⟩] := by decide
  exact ⟨_, _, h, h', fun heq => hmoved (congrArg (List.map Instr.location) heq), hlegible,
    hlegible', (listing_determines_code.1 _ _ hlegible hlegible').2 rfl⟩

end ExprLang
