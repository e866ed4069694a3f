/-
  PARSING UNDOES PRINTING.

  `parse_printed` reads the words of any tree back, wherever their tokens stand, and gives the
  tree without anything else — as long as the bound on nesting allows it, and otherwise complains
  about nesting.

  Arguments and statements are read by loops, one tree a round; what stands behind a tree is a
  separator or the closing token, and an expression stops in front of either.  Then all trees are
  readable, by induction on the tree: as values, as statements, or as the unit literal that stands
  for a last semicolon.
-/
import ExprLang.Proofs.PrintedOperands

namespace ExprLang.Grammar

open ExprLang.Parser ExprLang.Expr

variable {guard : Expr → Bool} {last : Location} {ts rest : List Token} {e : Expr} {n : Nat}

/-! ## Arguments and calls -/

/-- Whether some trees are others, wherever their tokens stand. -/
def AllAlike (es es' : List Expr) : Prop := allUnlocated es' = allUnlocated es

/-- This and the next one build lists of trees that agree one by one. -/
theorem Alike.singleton {e' : Expr} (he : Alike e e') : AllAlike [e] [e'] :=
  congrArg (fun e => [e]) he

theorem AllAlike.append {es es' : List Expr} {e e' : Expr} (hes : AllAlike es es')
    (he : Alike e e') : AllAlike (es ++ [e]) (es' ++ [e']) := by
  simp only [AllAlike, allUnlocated_append, allUnlocated]
  rw [hes, he]

/-- In front of the trees behind another one stands a separator, and the closing token behind
    them all. -/
theorem writes_behind {separator close : String} {es : List Expr} {closing : Token}
    (hts : Written (printedBehind guard separator es) ts)
    (hclosing : (Word.text close).Writes closing) (last : Location) (rest : List Token) :
    (Word.text separator).Writes (current last (ts ++ closing :: rest)) ∨
      (Word.text close).Writes (current last (ts ++ closing :: rest)) := by
  cases es with
  | nil =>
    cases hts
    exact .inr hclosing
  | cons e es =>
    obtain ⟨t, us, rfl, ht, -⟩ := written_cons hts
    exact .inl ht

/-- An argument is read up to the comma or the parenthesis behind it. -/
theorem reads_argument (n : Nat) (last : Location) (rest : List Token) {es : List Expr}
    {us : List Token} {closing : Token} (h : Readable guard e) (hts : Written (e.printed guard) ts)
    (hus : Written (printedBehind guard "," es) us) (hclosing : (Word.text ")").Writes closing) :
    Reads (e.nesting guard + 1 ≤ n) (Alike e)
      ((nested n).expression.run last (ts ++ (us ++ closing :: rest)))
      fun e' => .ok (e', us ++ closing :: rest) := by
  obtain ⟨own, hown, hnext⟩ : ∃ own ∈ [",", ")"],
      (Word.text own).Writes (current last (us ++ closing :: rest)) := by
    rcases writes_behind hus hclosing last rest with h | h
    · exact ⟨_, by simp, h⟩
    · exact ⟨_, by simp, h⟩
  have hsigns : ∀ own ∈ [",", ")"], own ∉ "=" :: "(" :: binaryLevels.flatten ∧ own ≠ "else" := by
    decide
  refine h.expression.inside hts (stops_of_writes hnext (hsigns own hown).1) fun _ => ?_
  rw [hnext.is_eq]
  simpa using (hsigns own hown).2

/-- The step of the loop over arguments. -/
def argumentStep (inner : Nested) (args : List Expr) : Parser true (List Expr) :=
  (token ",").bind fun _ => inner.expression.map fun e => args ++ [e]

/-- A list of arguments is read up to its closing parenthesis, by induction on the arguments that
    are left. -/
theorem reads_further {es : List Expr} {closing : Token} (hes : ∀ e ∈ es, Readable guard e)
    {before before' : List Expr} (hbefore : AllAlike before before')
    (hts : Written (printedBehind guard "," es) ts) (hclosing : (Word.text ")").Writes closing) :
    Reads (nestingAll guard es ≤ n) (AllAlike (before ++ es))
      ((loop (·.is ",") (argumentStep (nested n)) before').run last (ts ++ closing :: rest))
      fun es' => .ok (es', closing :: rest) := by
  induction es generalizing ts before before' with
  | nil =>
    cases hts
    rw [List.append_nil, List.nil_append, run_loop_stop before' (by
      rw [current, hclosing.is_eq]
      decide)]
    exact reads_ok hbefore (Nat.zero_le n)
  | cons e es ih =>
    rw [printedBehind, List.cons_append] at hts
    obtain ⟨comma, ts, rfl, hcomma, hts⟩ := written_cons hts
    obtain ⟨us, us', rfl, hus, hus'⟩ := written_append hts
    have hcommaIs : comma.is "," = true := by
      rw [hcomma.is_eq]
      decide
    have hstep : Reads (e.nesting guard + 1 ≤ n) (AllAlike (before ++ [e]))
        ((argumentStep (nested n) before').run last (comma :: (us ++ (us' ++ closing :: rest))))
        fun es' => .ok (es', us' ++ closing :: rest) := by
      rw [argumentStep, run_token_bind hcommaIs]
      exact (reads_argument n last rest (hes e List.mem_cons_self) hus hus' hclosing).map
        fun e' he' => hbefore.append he'
    rw [List.cons_append, List.append_assoc]
    refine ((Reads.loop hcommaIs hstep).trans fun before'' hbefore'' => ?_).congr Nat.max_le.symm
    have hloop := ih (fun e he => hes e (List.mem_cons_of_mem _ he)) hbefore'' hus'
    rwa [List.append_assoc, List.singleton_append] at hloop

/-- Arguments are read up to the parenthesis behind them. -/
theorem reads_arguments (n : Nat) (last : Location) (rest : List Token) {es : List Expr}
    {closing : Token} (hes : ∀ e ∈ es, Readable guard e)
    (hts : Written (printedAll guard "," es) ts) (hclosing : (Word.text ")").Writes closing) :
    Reads (nestingAll guard es ≤ n) (AllAlike es)
      ((arguments (nested n)).run last (ts ++ closing :: rest))
      fun es' => .ok (es', closing :: rest) := by
  cases es with
  | nil =>
    cases hts
    rw [List.nil_append, arguments, run_look_cons (if_pos (by rw [hclosing.is_eq]; decide))]
    exact reads_ok rfl (Nat.zero_le n)
  | cons e es =>
    obtain ⟨us, us', rfl, hus, hus'⟩ := written_append hts
    have he := hes e List.mem_cons_self
    have hargument := reads_argument n last rest he hus hus' hclosing
    obtain ⟨w, ws, hws, hw, -⟩ := he.begins
    rw [hws] at hus
    obtain ⟨t, us, rfl, ht, hus⟩ := written_cons hus
    have hnot : ¬t.is ")" = true := by
      rw [ht.is_sign hw (by decide)]
      exact Bool.false_ne_true
    rw [List.append_assoc, List.cons_append, arguments, run_look_cons (if_neg hnot), run_relax]
    refine (hargument.bind fun e' he' => ?_).congr Nat.max_le.symm
    exact reads_further (fun e he => hes e (List.mem_cons_of_mem _ he)) he'.singleton hus' hclosing

/-- A call is a name and the list behind it. -/
theorem readable_call {f : String} {es : List Expr} (loc l : Location) (hf : PlainName f)
    (hes : ∀ e ∈ es, Readable guard e) : Readable guard (.call loc (.name l f) es) := by
  refine readable_of_operand ⟨_, _, rfl, begins_name hf⟩ fun n last ts rest hts _ _ => ?_
  obtain ⟨t, ts, rfl, ht, hts⟩ := written_cons hts
  obtain ⟨opening, ts, rfl, hopening, hts⟩ := written_cons hts
  obtain ⟨us, us', rfl, hus, hus'⟩ := written_append hts
  obtain ⟨closing, rfl, hclosing⟩ := written_singleton hus'
  have hopeningIs : opening.is "(" = true := by
    rw [hopening.is_eq]
    decide
  have harguments := reads_arguments n last rest hes hus hclosing
  change Reads _ _ ((unary (nested n)).run last _) _
  simp only [List.cons_append, List.append_assoc, List.nil_append]
  rw [run_unary_nameOrCall hf ht, nameOrCall, name, run_take_bind (accepts_name hf ht),
    run_look_cons (if_pos hopeningIs), run_relax, run_token_bind hopeningIs]
  refine harguments.go.image fun es' hes' => ?_
  refine ⟨.call t.location (.name t.location f) es', ?_, ?_⟩
  · rw [Alike, unlocated, unlocated, hes']
    rfl
  · rw [run_take_map (by rw [hclosing.is_eq]; decide), show t.text = f from ht.1]
    rfl

/-! ## Statements and blocks -/

/-- A tree whose words are read as a statement up to the token behind it. -/
structure ReadableStatement (guard : Expr → Bool) (e : Expr) : Prop where
  begins : ∃ w ws, e.printed guard = w :: ws ∧ w ≠ .text "\x7d"
  reads : ∀ n last ts rest own, Written (e.printed guard) ts → own ∈ [";", "\x7d"] →
    (Word.text own).Writes (current last rest) →
    Reads (e.nesting guard + 1 ≤ n) (Alike e) ((statement (nested n)).run last (ts ++ rest))
      fun e' => .ok (e', rest)

/-- An expression stops in front of a semicolon and of the closing brace. -/
theorem stops_of_ending {own : String} {t : Token} (hown : own ∈ [";", "\x7d"])
    (ht : (Word.text own).Writes t) : Stops t ∧ t.is "else" = false := by
  have hsigns : ∀ own ∈ [";", "\x7d"], own ∉ "=" :: "(" :: binaryLevels.flatten ∧ own ≠ "else" := by
    decide
  refine ⟨stops_of_writes ht (hsigns own hown).1, ?_⟩
  rw [ht.is_eq]
  simpa using (hsigns own hown).2

/-- An expression is a statement too. -/
theorem Readable.statement (h : Readable guard e) : ReadableStatement guard e := by
  obtain ⟨w, ws, hws, -, hbrace, hvar⟩ := h.begins
  refine ⟨⟨w, ws, hws, hbrace⟩, fun n last ts rest own hts hown hnext => ?_⟩
  obtain ⟨hstops, helse⟩ := stops_of_ending hown hnext
  have hexpression := h.expression.inside (n := n) hts hstops fun _ => helse
  rw [hws] at hts
  obtain ⟨t, us, rfl, ht, hus⟩ := written_cons hts
  have hnot : ¬t.is "var" = true := by
    rw [ht.is_sign hvar (by decide)]
    exact Bool.false_ne_true
  rw [List.cons_append, Grammar.statement, run_look_cons (if_neg hnot)]
  exact hexpression

/-- A declaration reads as its name and its value; it is no operand, so only as a statement. -/
theorem readable_var {x : String} (loc : Location) (hx : PlainName x) (h : Readable guard e) :
    ReadableStatement guard (.var loc x e) := by
  refine ⟨⟨_, _, rfl, by simp⟩, fun n last ts rest own hts hown hnext => ?_⟩
  obtain ⟨hstops, helse⟩ := stops_of_ending hown hnext
  obtain ⟨opening, ts, rfl, hopening, hts⟩ := written_cons hts
  obtain ⟨t, ts, rfl, ht, hts⟩ := written_cons hts
  obtain ⟨sign, us, rfl, hsign, hus⟩ := written_cons hts
  have hopeningIs : opening.is "var" = true := by
    rw [hopening.is_eq]
    decide
  have hsignIs : sign.is "=" = true := by
    rw [hsign.is_eq]
    decide
  simp only [List.cons_append]
  rw [Grammar.statement, run_look_cons (if_pos hopeningIs), declaration, run_token_bind hopeningIs,
    name, run_take_bind (accepts_name hx ht), run_token_bind hsignIs]
  refine (h.expression.inside hus hstops fun _ => helse).map fun e' he' => ?_
  rw [Alike, unlocated, unlocated, he', show t.text = x from ht.1]

/-- Statements that are read one after the other. -/
inductive ReadableBody (guard : Expr → Bool) : List Expr → Prop
  | last {e : Expr} (he : ReadableStatement guard e) : ReadableBody guard [e]
  | closed {e : Expr} {loc : Location} (he : ReadableStatement guard e) :
    ReadableBody guard [e, .unit loc]
  | further {e e₁ : Expr} {es : List Expr} (he : ReadableStatement guard e)
    (hrest : ReadableBody guard (e₁ :: es)) : ReadableBody guard (e :: e₁ :: es)

/-- The step of the loop over statements. -/
def statementStep (inner : Nested) (earlier : List Expr) : Parser true (List Expr) :=
  (statement inner).bind fun e => separator earlier e

/-- Statements do not begin with the brace that would close their block. -/
theorem ReadableBody.begins {es : List Expr} (h : ReadableBody guard es) :
    ∃ w ws, printedAll guard ";" es = w :: ws ∧ w ≠ .text "\x7d" := by
  cases h with
  | last he | closed he | further he =>
    obtain ⟨w, ws, hws, hw⟩ := he.begins
    exact ⟨w, _, by rw [printedAll, hws]; rfl, hw⟩

/-- Behind a semicolon the statement is complete; a unit literal follows in front of the closing
    brace. -/
theorem run_separator {semicolon : Token} (h : (Word.text ";").Writes semicolon)
    (earlier : List Expr) (e : Expr) :
    (separator earlier e).run last (semicolon :: rest) =
      .ok (if (current last rest).is "\x7d" then earlier ++ [e, .unit semicolon.location]
        else earlier ++ [e], rest) := by
  have hsemicolon : semicolon.is ";" = true := by
    rw [h.is_eq]
    decide
  rw [separator, run_look_cons (if_pos hsemicolon), run_relax, run_token_bind hsemicolon]
  rfl

/-- In front of the closing brace the last statement needs no semicolon. -/
theorem run_separator_closing {closing : Token} (h : (Word.text "\x7d").Writes closing)
    (earlier : List Expr) (e : Expr) :
    (separator earlier e).run last (closing :: rest) = .ok (earlier ++ [e], closing :: rest) := by
  have hsemicolon : ¬closing.is ";" = true := by
    rw [h.is_eq]
    decide
  have hclosing : closing.is "\x7d" = true := by
    rw [h.is_eq]
    decide
  rw [separator, run_look_cons (if_neg hsemicolon)]
  change (if closing.is "\x7d" = true then pure (earlier ++ [e]) else _ :
    Parser false (List Expr)).run last (closing :: rest) = _
  rw [if_pos hclosing]
  rfl

/-- A statement is one round of the loop. -/
theorem reads_statement {own : String} {earlier : List Expr} (h : ReadableStatement guard e)
    (hts : Written (e.printed guard) ts) (hown : own ∈ [";", "\x7d"])
    (hnext : (Word.text own).Writes (current last rest)) {good : List Expr → Prop}
    {result : List Token} (hgood : ∀ e', Alike e e' → ∃ es', good es' ∧
      (separator earlier e').run last rest = .ok (es', result)) :
    Reads (e.nesting guard + 1 ≤ n) good
      ((loop (fun t => !t.is "\x7d") (statementStep (nested n)) earlier).run last (ts ++ rest))
      fun es' => (loop (fun t => !t.is "\x7d") (statementStep (nested n)) es').run last result := by
  have hstatement := h.reads n last ts rest own hts hown hnext
  obtain ⟨w, ws, hws, hw⟩ := h.begins
  rw [hws] at hts
  obtain ⟨t, us, rfl, ht, hus⟩ := written_cons hts
  have htest : (!(current last (t :: us ++ rest)).is "\x7d") = true := by
    rw [List.cons_append, current, ht.is_sign hw (by decide)]
    rfl
  exact Reads.loop htest (hstatement.go.image hgood)

/-- Statements are read up to the closing brace, by induction on those that are left. -/
theorem ReadableBody.reads {es : List Expr} (h : ReadableBody guard es) (n : Nat)
    (last : Location) (rest : List Token) {closing : Token} {before before' : List Expr}
    (hbefore : AllAlike before before') (hts : Written (printedAll guard ";" es) ts)
    (hclosing : (Word.text "\x7d").Writes closing) :
    Reads (nestingAll guard es ≤ n) (AllAlike (before ++ es))
      ((loop (fun t => !t.is "\x7d") (statementStep (nested n)) before').run last
        (ts ++ closing :: rest)) fun es' => .ok (es', closing :: rest) := by
  have hstop (es' : List Expr) :
      (loop (fun t => !t.is "\x7d") (statementStep (nested n)) es').run last (closing :: rest)
        = .ok (es', closing :: rest) := run_loop_stop es' (by
    rw [current, hclosing.is_eq]
    decide)
  induction h generalizing ts before before' with
  | last he =>
    rw [printedAll, printedBehind, List.append_nil] at hts
    refine ((reads_statement he hts (by simp) hclosing fun e' he' =>
      ⟨_, hbefore.append he', run_separator_closing hclosing before' e'⟩).result
        fun es' _ => hstop es').congr (by simp [nestingAll])
  | @closed e loc he =>
    obtain ⟨us, us', rfl, hus, hus'⟩ := written_append hts
    obtain ⟨semicolon, rfl, hsemicolon⟩ := written_singleton hus'
    rw [List.append_assoc]
    refine ((reads_statement he hus (by simp) hsemicolon fun e' he' =>
      ⟨before' ++ [e', .unit semicolon.location], ?_, ?_⟩).result fun es' _ => hstop es').congr ?_
    · have hunit : Alike (.unit loc) (.unit semicolon.location) := rfl
      simpa only [List.append_assoc, List.singleton_append] using (hbefore.append he').append hunit
    · rw [List.singleton_append, run_separator hsemicolon, if_pos]
      rw [current, hclosing.is_eq]
      decide
    · simp only [nestingAll, nesting]
      omega
  | @further e e₁ es he hrest ih =>
    obtain ⟨us, us', rfl, hus, hus'⟩ := written_append hts
    obtain ⟨semicolon, vs, rfl, hsemicolon, hvs⟩ := written_cons hus'
    obtain ⟨w, ws, hws, hw⟩ := hrest.begins
    -- behind the semicolon another statement begins, so the loop goes on
    have hnext : (current last (vs ++ closing :: rest)).is "\x7d" = false := by
      have hvs' : Written (printedAll guard ";" (e₁ :: es)) vs := hvs
      rw [hws] at hvs'
      obtain ⟨t, vs, rfl, ht, -⟩ := written_cons hvs'
      exact ht.is_sign hw (by decide)
    have hround : Reads (e.nesting guard + 1 ≤ n) (AllAlike (before ++ [e]))
        ((loop (fun t => !t.is "\x7d") (statementStep (nested n)) before').run last
          (us ++ semicolon :: (vs ++ closing :: rest)))
        fun es' => (loop (fun t => !t.is "\x7d") (statementStep (nested n)) es').run last
          (vs ++ closing :: rest) :=
      reads_statement he hus (by simp) hsemicolon fun e' he' => ⟨_, hbefore.append he', by
        rw [run_separator hsemicolon, hnext, if_neg Bool.false_ne_true]⟩
    rw [List.append_assoc, List.cons_append]
    refine (hround.trans fun before'' hbefore'' => ?_).congr Nat.max_le.symm
    have hloop := ih hbefore'' hvs
    rwa [List.append_assoc, List.singleton_append] at hloop

/-- A block is its statements between braces, or empty. -/
theorem readable_block {es : List Expr} (loc : Location) (h : es = [] ∨ ReadableBody guard es) :
    Readable guard (.block loc es) := by
  refine readable_of_operand ⟨_, _, rfl, by simp⟩ fun n last ts rest hts _ _ => ?_
  obtain ⟨opening, ts, rfl, hopening, hts⟩ := written_cons hts
  obtain ⟨us, us', rfl, hus, hus'⟩ := written_append hts
  obtain ⟨closing, rfl, hclosing⟩ := written_singleton hus'
  have hclosingIs : closing.is "\x7d" = true := by
    rw [hclosing.is_eq]
    decide
  have hstatements : Reads (nestingAll guard es ≤ n) (AllAlike es)
      ((loop (fun t => !t.is "\x7d") (statementStep (nested n)) []).run last
        (us ++ closing :: rest)) fun es' => .ok (es', closing :: rest) := by
    rcases h with rfl | hbody
    · cases hus
      rw [List.nil_append, run_loop_stop [] (by rw [current, hclosingIs]; rfl)]
      exact reads_ok rfl (Nat.zero_le n)
    · have hnone : AllAlike [] [] := rfl
      have hreads := hbody.reads n last rest hnone hus hclosing
      rwa [List.nil_append] at hreads
  change Reads _ _ ((unary (nested n)).run last _) _
  simp only [List.cons_append, List.append_assoc, List.nil_append]
  rw [run_unary_block hopening, block, run_token_bind (by rw [hopening.is_eq]; decide)]
  refine hstatements.go.image fun es' hes' => ?_
  refine ⟨.block opening.location es', ?_, ?_⟩
  · rw [Alike, unlocated, unlocated, hes']
  · rw [run_token_map hclosingIs]
    rfl

/-! ## All trees -/

/-- Whether a tree at a place is readable as the place requires. -/
def ReadableAt (guard : Expr → Bool) (place : Place) (e : Expr) : Prop :=
  Readable guard e ∨ place ≠ .value ∧ ReadableStatement guard e ∨
    place = .ending ∧ ∃ loc, e = .unit loc

/-- Where a value is wanted, a tree is read as one. -/
theorem ReadableAt.value (h : ReadableAt guard .value e) : Readable guard e := by
  rcases h with h | ⟨h, -⟩ | ⟨h, -⟩
  · exact h
  · exact absurd rfl h
  · contradiction

/-- Where a statement is wanted, as a statement. -/
theorem ReadableAt.statement (h : ReadableAt guard .statement e) : ReadableStatement guard e := by
  rcases h with h | ⟨-, h⟩ | ⟨h, -⟩
  · exact h.statement
  · exact h
  · contradiction

mutual

/-- Every tree that has a source is readable. -/
theorem readable_of_fits (hguard : ∀ e : Expr, e.endsOpen = true → guard e = true)
    (place : Place) : (e : Expr) → e.Fits PlainName place → ReadableAt guard place e
  | .int loc n, _ => .inl (readable_int loc n)
  | .bool loc b, _ => .inl (readable_bool loc b)
  | .unit loc, hfits => .inr (.inr ⟨hfits, loc, rfl⟩)
  | .name loc n, hfits => .inl (readable_name loc hfits)
  | .unary loc op operand, hfits =>
    .inl (readable_unary loc hfits.1 (readable_of_fits hguard .value operand hfits.2).value)
  | .binary loc op left right, ⟨hop, hleft, hright⟩ => by
    have hleft' := (readable_of_fits hguard .value left hleft).value
    have hright' := (readable_of_fits hguard .value right hright).value
    rcases hop with ⟨rfl, hname⟩ | hop
    · cases left with
      | name l n => exact .inl (readable_assign loc l hleft hright')
      | _ => contradiction
    · exact .inl (readable_operation loc hop hleft' hright')
  | .ifThen loc condition thenBranch, ⟨hcondition, hthen⟩ =>
    .inl (readable_ifThen loc (readable_of_fits hguard .value condition hcondition).value
      (readable_of_fits hguard .value thenBranch hthen).value)
  | .ifElse loc condition thenBranch elseBranch, ⟨hcondition, hthen, helse⟩ =>
    .inl (readable_ifElse loc (hguard thenBranch)
      (readable_of_fits hguard .value condition hcondition).value
      (readable_of_fits hguard .value thenBranch hthen).value
      (readable_of_fits hguard .value elseBranch helse).value)
  | .call loc function arguments, ⟨hname, hfunction, harguments⟩ => by
    have harguments' := readable_of_fitAll hguard arguments harguments
    cases function with
    | name l f => exact .inl (readable_call loc l hfunction harguments')
    | _ => contradiction
  | .var loc x value, ⟨hplace, hx, hvalue⟩ =>
    .inr (.inl ⟨hplace, readable_var loc hx (readable_of_fits hguard .value value hvalue).value⟩)
  | .block loc statements, hfits => by
    rcases readable_of_fitBody hguard .statement statements hfits with hnil | hbody | ⟨hplace, -⟩
    · exact .inl (readable_block loc (.inl hnil))
    · exact .inl (readable_block loc (.inr hbody))
    · contradiction

/-- The induction over the arguments of a call. -/
theorem readable_of_fitAll (hguard : ∀ e : Expr, e.endsOpen = true → guard e = true) :
    (es : List Expr) → FitAll PlainName es → ∀ e ∈ es, Readable guard e
  | [], _ => by simp
  | e :: rest, ⟨he, hrest⟩ => by
    have he' := (readable_of_fits hguard .value e he).value
    have hrest' := readable_of_fitAll hguard rest hrest
    intro e' hmem
    rcases List.mem_cons.1 hmem with rfl | hmem
    · exact he'
    · exact hrest' e' hmem

/-- The induction over the statements of a block; at its end a unit value may be left that no word
    stands for. -/
theorem readable_of_fitBody (hguard : ∀ e : Expr, e.endsOpen = true → guard e = true)
    (place : Place) : (es : List Expr) → FitBody PlainName place es →
    es = [] ∨ ReadableBody guard es ∨ place = .ending ∧ ∃ loc, es = [.unit loc]
  | [], _ => .inl rfl
  | e :: rest, ⟨he, hrest⟩ => by
    have he' := readable_of_fits hguard (if rest.isEmpty then place else .statement) e he
    have hrest' := readable_of_fitBody hguard .ending rest hrest
    cases rest with
    | nil =>
      rcases he' with he' | ⟨-, he'⟩ | ⟨hplace, loc, rfl⟩
      · exact .inr (.inl (.last he'.statement))
      · exact .inr (.inl (.last he'))
      · exact .inr (.inr ⟨hplace, loc, rfl⟩)
    | cons e₁ es =>
      have hstatement : ReadableStatement guard e := ReadableAt.statement he'
      rcases hrest' with hnil | hbody | ⟨-, loc, hunit⟩
      · contradiction
      · exact .inr (.inl (.further hstatement hbody))
      · rw [hunit]
        exact .inr (.inl (.closed hstatement))

end

/-! ## Whole programs -/

/-- Printing a tree that has a source, with parentheses where they are needed and wherever else
    `guard` puts them round a then-branch, and parsing the words gives the tree back, wherever its
    tokens stand.  Only nesting can be in the way, and the parser says so. -/
theorem parse_printed (hguard : ∀ e : Expr, e.endsOpen = true → guard e = true)
    (hfits : e.Fits PlainName .value) (hts : List.Forall₂ Word.Writes (e.printed guard) ts) :
    (e.nesting guard < maxDepth →
      ∃ tree, parse ts = .ok (some tree) ∧ tree.unlocated = e.unlocated) ∧
    (maxDepth ≤ e.nesting guard → ∃ loc, parse ts = .error (.tooDeep loc)) := by
  have hread := (readable_of_fits hguard .value e hfits).value
  have hrun : Reads (e.nesting guard + 1 ≤ maxDepth) (Alike e)
      ((nested maxDepth).expression.run (endLocation ts) (ts ++ [])) fun e' => .ok (e', []) :=
    hread.expression.inside hts (stops_endAt _) fun _ => rfl
  obtain ⟨w, ws, hws, -, -, hvar⟩ := hread.begins
  rw [hws] at hts
  obtain ⟨t, us, rfl, ht, hus⟩ := written_cons hts
  have hnot : t.is "var" = false := ht.is_sign hvar (by decide)
  rw [List.append_nil] at hrun
  constructor
  · intro hnesting
    obtain ⟨tree, htree, hok⟩ := hrun.1 hnesting
    refine ⟨tree, ?_, htree⟩
    rw [parse, hnot, if_neg Bool.false_ne_true, hok]
    rfl
  · intro hnesting
    obtain ⟨loc, herror⟩ := hrun.2 (by omega)
    refine ⟨loc, ?_⟩
    rw [parse, hnot, if_neg Bool.false_ne_true, herror]

/-- A then-branch in parentheses, so that the `else` stays with the outer conditional; and an
    operand in parentheses, so that the subtractions are not joined from the left. -/
theorem parse_printed_conditional : ∃ ts tree,
    Written [.text "if", .text "a", .text "then", .text "(", .text "if", .text "b", .text "then",
      .integer 1, .text ")", .text "else", .text "x", .text "=", .integer 2, .text "-", .text "(",
      .integer 3, .text "-", .text "y", .text ")"] ts ∧
    parse ts = .ok (some tree) ∧
    tree.unlocated = .ifElse .synthetic (.name .synthetic "a")
      (.ifThen .synthetic (.name .synthetic "b") (.int .synthetic 1))
      (.binary .synthetic "=" (.name .synthetic "x") (.binary .synthetic "-" (.int .synthetic 2)
        (.binary .synthetic "-" (.int .synthetic 3) (.name .synthetic "y")))) := by
  have hfits : (Expr.ifElse .synthetic (.name .synthetic "a")
      (.ifThen .synthetic (.name .synthetic "b") (.int .synthetic 1))
      (.binary .synthetic "=" (.name .synthetic "x") (.binary .synthetic "-" (.int .synthetic 2)
        (.binary .synthetic "-" (.int .synthetic 3) (.name .synthetic "y"))))).Fits PlainName
          .value := by
    have hnames : ∀ n ∈ ["a", "b", "x", "y"], PlainName n := by decide
    have hminus : "-" ∈ binaryLevels.flatten := by decide
    exact ⟨hnames "a" (by simp), ⟨hnames "b" (by simp), trivial⟩, .inl ⟨rfl, rfl⟩,
      hnames "x" (by simp), .inr hminus, trivial, .inr hminus, trivial, hnames "y" (by simp)⟩
  have hguard : ∀ e : Expr, e.endsOpen = true → e.endsOpen = true := fun _ h => h
  obtain ⟨tree, htree⟩ :=
    (parse_printed hguard hfits (written_tokens (by decide) .start)).1 (by decide)
  exact ⟨_, tree, written_tokens (by decide) .start, htree⟩

end ExprLang.Grammar
