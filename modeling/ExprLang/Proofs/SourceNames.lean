/-
  SOURCE NAMES: the identifiers that a source text can spell.

  The lexer makes an identifier only of a word, and the grammar takes it for a name only when it
  is no keyword.  So a program never names an operator by its sign, and of all builtins only
  `unary_not` and the two printing functions have a name that a program can write, declare or
  assign to.  That is what keeps the operators of a program out of its own reach.
-/
import ExprLang.Builtin
import ExprLang.Program
import ExprLang.Proofs.ParsedTrees

namespace ExprLang

/-- Whether a text is a word and no Boolean literal. -/
def isWord (text : String) : Bool :=
  match text.toList with
  | [] => false
  | c :: rest => isWordStart c && rest.all isWordRest && !booleanWords.contains text

/-- A name that a program can write. -/
def SourceName (n : String) : Prop := Grammar.Nameable (isWord · = true) n

instance (n : String) : Decidable (SourceName n) := inferInstanceAs (Decidable (_ ∧ _))

/-! ## Identifiers are words -/

/-- What the lexer takes for an identifier is spelt like a word. -/
theorem isWord_of_scan {text spelling rest : List Char}
    (h : scan text = .token .identifier spelling rest) :
    isWord (String.ofList spelling) = true := by
  revert h
  fun_cases scan text <;> intro h <;> try contradiction
  all_goals simp only [Scan.token.injEq, reduceCtorEq, false_and] at h
  -- only a word is left
  rename_i c rest' _ _ _ hstart
  obtain ⟨hkind, rfl, -⟩ := h
  rw [wordKind] at hkind
  have hliteral :
      booleanWords.contains (String.ofList (c :: rest'.takeWhile isWordRest)) = false := by
    split at hkind
    · contradiction
    · rename_i hnot
      simpa using hnot
  simp only [isWord, String.toList_ofList, hstart, hliteral, Bool.true_and, Bool.not_false,
    Bool.and_true, List.all_eq_true]
  exact fun d hd => List.all_eq_true.1 List.all_takeWhile d hd

/-- Every token of a text has been scanned. -/
theorem scanned_of_tokenizeFrom {here : Position} {text : List Char} {tokens : List Token}
    (h : tokenizeFrom here text = .ok tokens) {t : Token} (ht : t ∈ tokens) :
    ∃ front rest, scan front = .token t.kind t.text.toList rest := by
  fun_induction tokenizeFrom here text generalizing tokens with
  | case1 here text hscan =>
    simp only [Except.ok.injEq] at h
    subst h
    simp at ht
  | case2 here text skipped rest hscan ih => exact ih h ht
  | case3 here text kind spelling rest hscan ih =>
    rcases hrest : tokenizeFrom (here.after spelling) rest with e | others
    · rw [hrest] at h
      contradiction
    · rw [hrest] at h
      simp only [Except.map, Except.ok.injEq] at h
      subst h
      rcases List.mem_cons.1 ht with rfl | hmem
      · exact ⟨text, rest, by simpa only [String.toList_ofList] using hscan⟩
      · exact ih hrest hmem
  | case4 => contradiction
  | case5 => contradiction

/-- So all the names among the tokens of a text are spelt like words. -/
theorem spelt_of_tokenizeFrom {here : Position} {text : List Char} {tokens : List Token}
    (h : tokenizeFrom here text = .ok tokens) : Grammar.Spelt (isWord · = true) tokens := by
  intro t ht hkind
  obtain ⟨front, rest, hscan⟩ := scanned_of_tokenizeFrom h ht
  rw [hkind] at hscan
  simpa only [String.ofList_toList] using isWord_of_scan hscan

/-! ## What was read, and what was checked -/

/-- What was read was scanned and parsed. -/
theorem readProgram_eq_ok {source : String} {tree : Expr} :
    readProgram source = .ok (some tree) ↔
      ∃ tokens, tokenize source = .ok tokens ∧ Grammar.parse tokens = .ok (some tree) := by
  unfold readProgram
  rcases tokenize source with e | tokens
  · simp
  · dsimp only
    rcases hparse : Grammar.parse tokens <;> simp [hparse]

/-- What was checked was read, and has the type that was found. -/
theorem checkProgram_eq_ok {source : String} {tree : Expr} {ty : Ty} :
    checkProgram source = .ok (some (tree, ty)) ↔
      readProgram source = .ok (some tree) ∧ Typing.typeOf tree = .ok ty := by
  unfold checkProgram
  rcases readProgram source with e | _ | tree'
  · simp
  · simp
  · dsimp only
    rcases htype : Typing.typeOf tree' with e | ty'
    · refine iff_of_false (by simp) ?_
      rintro ⟨hread, hty⟩
      obtain rfl := Option.some.inj (Except.ok.inj hread)
      exact absurd (htype.symm.trans hty) (by simp)
    · simp only [Except.ok.injEq, Option.some.injEq, Prod.mk.injEq]
      refine and_congr_right ?_
      rintro rfl
      rw [htype, Except.ok.injEq]

/-- A program read from a source text is a value all of whose names a program can write. -/
theorem fits_of_readProgram {source : String} {tree : Expr}
    (h : readProgram source = .ok (some tree)) : tree.Fits SourceName .value := by
  obtain ⟨tokens, htokens, hparse⟩ := readProgram_eq_ok.1 h
  exact Grammar.fits_of_parse (spelt_of_tokenizeFrom htokens) hparse

/-! ## Builtins within reach -/

/-- Whether a program can name a builtin. -/
def Builtin.InReach (b : Builtin) : Prop := b = .not ∨ b = .printInt ∨ b = .printBool

instance (b : Builtin) : Decidable b.InReach := inferInstanceAs (Decidable (_ ∨ _))

/-- A program can name a builtin only when the name is no sign and no keyword. -/
theorem sourceName_name_iff (b : Builtin) : SourceName b.name ↔ b.InReach := by
  cases b <;> decide

/-- No program can name a comparison. -/
theorem not_sourceName_of_compare {op : String} (hop : op = "==" ∨ op = "!=") :
    ¬SourceName op := by
  rcases hop with rfl | rfl <;> decide

/-- Builtins within reach are told apart by their types. -/
theorem Builtin.eq_of_signature {a b : Builtin} {ty : Ty} (ha : a.InReach) (hb : b.InReach)
    (hta : a.signature? = some ty) (htb : b.signature? = some ty) : a = b := by
  rw [← htb] at hta
  revert hta
  rcases ha with rfl | rfl | rfl <;> rcases hb with rfl | rfl | rfl <;> decide

/-- A builtin that a source can name has a type. -/
theorem Builtin.InReach.signature {b : Builtin} (h : b.InReach) :
    ∃ ty, b.signature? = some ty := by
  rcases h with rfl | rfl | rfl <;> exact ⟨_, rfl⟩

/-- The list of builtins is complete. -/
theorem Builtin.mem_all (b : Builtin) : b ∈ Builtin.all := by cases b <;> decide

end ExprLang
