/-
  PRINTED OPERANDS: reading back the words of operands and expressions.

  An expression is read up to a token at which it stops, and an operand up to one that no tighter
  operator is.  What a level of operators does with an operand depends on the tokens behind it:
  `ReadsOperand` says that reading the operand leaves the level to go on from there (`joining`), so
  operands joined from the left are read one after the other.  An operand of a tighter level is
  one of a looser level too (`climb`).

  A tree is `Readable` if its words are read in both ways.  Literals, names, operations,
  assignments and conditionals of readable trees are readable.
-/
import Mathlib.Data.List.Infix
import ExprLang.Proofs.Printing
import ExprLang.Proofs.Readings

namespace ExprLang.Grammar

open ExprLang.Parser ExprLang.Expr

/-! ## Levels of operators -/

/-- Operands joined by operators of some levels. -/
def joined (inner : Nested) (levels : List (List String)) : Parser true Expr :=
  levels.foldr chain (unary inner)

/-- How the loosest of some levels goes on behind an operand. -/
def joining (inner : Nested) : List (List String) → Expr → Parser false Expr
  | [], left => pure left
  | operators :: tighter, left =>
    loop (·.isAny operators)
      (fun left => (take (·.isAny operators) (·.expected .operand)).bind fun op =>
        (joined inner tighter).map (.binary op.location op.text left)) left

/-- A level reads an operand of the tighter ones and goes on from there. -/
theorem joined_cons (inner : Nested) (operators : List String) (tighter : List (List String)) :
    joined inner (operators :: tighter)
      = (joined inner tighter).bind (joining inner (operators :: tighter)) := rfl

variable {guard : Expr → Bool} {inner : Nested} {last : Location} {levels : List (List String)}
  {ts rest : List Token} {e : Expr} {fits : Prop} {good : Expr → Prop}

/-- Behind an operand nothing happens in front of a token that is no operator. -/
theorem run_joining (left : Expr) (h : (current last rest).isAny levels.flatten = false) :
    (joining inner levels left).run last rest = .ok (left, rest) := by
  cases levels with
  | nil => rfl
  | cons operators tighter =>
    exact run_loop_stop left (isAny_false_mono h (by simp))

/-- Whether a tree is another one, wherever its tokens stand. -/
def Alike (e e' : Expr) : Prop := e'.unlocated = e.unlocated

/-- An operand of the tighter levels is an operand of one more. -/
theorem climb {operators : List String}
    (h : Reads fits good ((joined inner levels).run last ts)
      fun e' => (joining inner levels e').run last rest)
    (hnext : (current last rest).isAny levels.flatten = false) :
    Reads fits good ((joined inner (operators :: levels)).run last ts)
      fun e' => (joining inner (operators :: levels) e').run last rest := by
  rw [joined_cons]
  exact (h.result fun e' _ => run_joining e' hnext).go

/-- Tighter levels have fewer operators behind their loosest one. -/
theorem tail_flatten_subset {target : List (List String)} (hsuffix : levels <:+ target) :
    levels.tail.flatten ⊆ target.tail.flatten := by
  obtain ⟨front, rfl⟩ := hsuffix
  have htail : levels.tail <:+ (front ++ levels).tail := by
    cases front with
    | nil => exact List.suffix_rfl
    | cons operators front =>
      exact (List.tail_suffix levels).trans (List.suffix_append front levels)
  intro op hop
  obtain ⟨operators, hmem, hop⟩ := List.mem_flatten.1 hop
  exact List.mem_flatten.2 ⟨operators, htail.subset hmem, hop⟩

/-- The step of `climb` for a list of levels: none of the looser operators stands behind, so each
    level reads the operand and stops. -/
theorem climbs {target : List (List String)} (hsuffix : levels <:+ target)
    (h : Reads fits good ((joined inner levels).run last ts)
      fun e' => (joining inner levels e').run last rest)
    (hnext : (current last rest).isAny target.tail.flatten = false) :
    Reads fits good ((joined inner target).run last ts)
      fun e' => (joining inner target e').run last rest := by
  obtain ⟨front, rfl⟩ := hsuffix
  induction front with
  | nil => exact h
  | cons operators front ih =>
    rw [List.cons_append, List.tail_cons] at hnext
    have htail : (front ++ levels).tail.flatten ⊆ (front ++ levels).flatten :=
      tail_flatten_subset (List.suffix_cons operators (front ++ levels))
    exact climb (ih (isAny_false_mono hnext htail)) hnext

/-! ## What it is to read words back -/

/-- Tokens that write these words are read as an operand of these levels. -/
def ReadsOperand (levels : List (List String)) (ws : List Word) (e : Expr) (depth : Nat) : Prop :=
  ∀ n last ts rest, Written ws ts → (current last rest).isAny levels.tail.flatten = false →
    (current last rest).is "(" = false →
    Reads (depth ≤ n) (Alike e) ((joined (nested n) levels).run last (ts ++ rest))
      fun e' => (joining (nested n) levels e').run last rest

/-- Tokens that write these words are read as an expression; if the words end in an open
    conditional, no `else` may follow. -/
def ReadsExpression (opens : Bool) (ws : List Word) (e : Expr) (depth : Nat) : Prop :=
  ∀ n last ts rest, Written ws ts → Stops (current last rest) →
    (opens = true → (current last rest).is "else" = false) →
    Reads (depth ≤ n) (Alike e) ((assignment (nested n)).run last (ts ++ rest))
      fun e' => .ok (e', rest)

variable {opens : Bool} {ws : List Word} {depth n : Nat}

/-- Inside another expression one takes a level. -/
theorem ReadsExpression.inside (h : ReadsExpression opens ws e depth) (hts : Written ws ts)
    (hstops : Stops (current last rest))
    (helse : opens = true → (current last rest).is "else" = false) :
    Reads (depth + 1 ≤ n) (Alike e) ((nested n).expression.run last (ts ++ rest))
      fun e' => .ok (e', rest) := by
  cases n with
  | zero => exact reads_tooDeep (by omega)
  | succ n => exact (h n last ts rest hts hstops helse).congr (by omega)

/-- So does the operand of a unary operator. -/
theorem ReadsOperand.inside (h : ReadsOperand [] ws e depth) (hts : Written ws ts)
    (hcall : (current last rest).is "(" = false) :
    Reads (depth + 1 ≤ n) (Alike e) ((nested n).operand.run last (ts ++ rest))
      fun e' => .ok (e', rest) := by
  cases n with
  | zero => exact reads_tooDeep (by omega)
  | succ n => exact (h n last ts rest hts rfl hcall).congr (by omega)

/-- An operand of all levels is an expression unless it is assigned to. -/
theorem reads_assignment
    (h : Reads fits good ((joined inner binaryLevels).run last ts)
      fun e' => (joining inner binaryLevels e').run last rest)
    (hstops : Stops (current last rest)) :
    Reads fits good ((assignment inner).run last ts) fun e' => .ok (e', rest) := by
  have hbinary := h.result fun e' _ => run_joining e' hstops.operators
  refine hbinary.go.result fun e' _ => ?_
  rw [run_look_of rfl (if_neg (Bool.eq_false_iff.1 hstops.assignment))]
  rfl

/-- So is an operand without operators. -/
theorem reads_assignment_of_unary
    (h : Reads fits good ((unary inner).run last ts) fun e' => .ok (e', rest))
    (hstops : Stops (current last rest)) :
    Reads fits good ((assignment inner).run last ts) fun e' => .ok (e', rest) :=
  reads_assignment (climbs List.nil_suffix h (isAny_false_mono hstops.operators (by decide))) hstops

/-- An operand of the loosest level is an expression, up to a token at which expressions stop. -/
theorem ReadsOperand.expression (h : ReadsOperand binaryLevels ws e depth) :
    ReadsExpression opens ws e depth := by
  intro n last ts rest hts hstops _
  have hnext : (current last rest).isAny binaryLevels.tail.flatten = false :=
    isAny_false_mono hstops.operators (by decide)
  exact reads_assignment (h n last ts rest hts hnext hstops.call) hstops

/-- An operand of the tightest level is one of all. -/
theorem ReadsOperand.loosen {target : List (List String)} (h : ReadsOperand levels ws e depth)
    (hsuffix : levels <:+ target) : ReadsOperand target ws e depth :=
  fun n last ts rest hts hnext hcall =>
    climbs hsuffix
      (h n last ts rest hts (isAny_false_mono hnext (tail_flatten_subset hsuffix)) hcall) hnext

/-! ## Readable trees -/

/-- A tree whose words are read as an expression, and as an operand wherever it is one as it is.
    Its first word is none that an expression cannot start with. -/
structure Readable (guard : Expr → Bool) (e : Expr) : Prop where
  begins : ∃ w ws, e.printed guard = w :: ws ∧
    w ≠ .text ")" ∧ w ≠ .text "\x7d" ∧ w ≠ .text "var"
  expression : ReadsExpression e.endsOpen (e.printed guard) e (e.nesting guard)
  operand : ∀ {levels}, levels <:+ binaryLevels → bare levels e = true →
    ReadsOperand levels (e.printed guard) e (e.nesting guard)

/-! ### In front of an atom -/

/-- This and the next ones say which rule the first word of an operand chooses. -/
theorem run_unary_atom {t : Token} (h : t.isAny unaryOperators = false) :
    (unary inner).run last (t :: ts) = (atom inner).run last (t :: ts) :=
  run_look_cons (if_neg (Bool.eq_false_iff.1 h))

/-- What an atom is that starts with a token of this kind. -/
theorem run_atom {t : Token} {kind : TokenKind} (hkind : t.kind = kind) :
    (atom inner).run last (t :: ts) =
      (match kind with
        | .integer => integer
        | .boolean => boolean
        | .identifier =>
          if t.text = "if" then conditional inner
          else if t.text = "var" then fail (.misplacedDeclaration t.location)
          else nameOrCall inner
        | .punctuation =>
          if t.text = "(" then parenthesized inner
          else if t.text = "\x7b" then block inner
          else fail (t.expected .operand)
        | _ => fail (t.expected .operand)).run last (t :: ts) := by
  subst hkind
  rfl

theorem run_unary_parenthesized {t : Token} (ht : (Word.text "(").Writes t) :
    (unary inner).run last (t :: ts) = (parenthesized inner).run last (t :: ts) := by
  rw [run_unary_atom (by rw [ht.isAny_eq]; decide), run_atom ht.2]
  change (if t.text = "(" then parenthesized inner else _ : Parser true Expr).run last (t :: ts) = _
  rw [if_pos (by exact ht.1)]

theorem run_unary_block {t : Token} (ht : (Word.text "\x7b").Writes t) :
    (unary inner).run last (t :: ts) = (block inner).run last (t :: ts) := by
  have htext : t.text = "\x7b" := ht.1
  rw [run_unary_atom (by rw [ht.isAny_eq]; decide), run_atom ht.2]
  change (if t.text = "(" then parenthesized inner else if t.text = "\x7b" then block inner else _ :
    Parser true Expr).run last (t :: ts) = _
  rw [if_neg (by rw [htext]; decide), if_pos htext]

theorem run_unary_conditional {t : Token} (ht : (Word.text "if").Writes t) :
    (unary inner).run last (t :: ts) = (conditional inner).run last (t :: ts) := by
  rw [run_unary_atom (by rw [ht.isAny_eq]; decide), run_atom ht.2]
  change (if t.text = "if" then conditional inner else _ : Parser true Expr).run last (t :: ts) = _
  rw [if_pos (by exact ht.1)]

/-- A name that is no keyword is a name or the function of a call. -/
theorem run_unary_nameOrCall {n : String} {t : Token} (hn : PlainName n)
    (ht : (Word.text n).Writes t) :
    (unary inner).run last (t :: ts) = (nameOrCall inner).run last (t :: ts) := by
  have hops : ∀ op ∈ unaryOperators, isNameShaped op = false ∨ op ∈ keywords := by decide
  have htext : t.text = n := ht.1
  have hif : n ≠ "if" := plainName_ne hn (by decide)
  have hvar : n ≠ "var" := plainName_ne hn (by decide)
  rw [run_unary_atom, run_atom (ht.2.trans (textKind_of_plainName hn))]
  · simp only [htext, if_neg hif, if_neg hvar]
  · rw [ht.isAny_eq, List.contains_eq_mem, decide_eq_false_iff_not]
    exact fun hmem => plainName_ne hn (hops n hmem) rfl

/-- It is an identifier to the parser. -/
theorem accepts_name {n : String} {t : Token} (hn : PlainName n) (ht : (Word.text n).Writes t) :
    (t.kind = .identifier && !keywords.contains t.text) = true := by
  have htext : t.text = n := ht.1
  have hkind : t.kind = .identifier := ht.2.trans (textKind_of_plainName hn)
  simp [hkind, htext, hn.2]

/-! ### Literals and names -/

/-- One word is one token. -/
theorem written_singleton {w : Word} (h : Written [w] ts) : ∃ t, ts = [t] ∧ w.Writes t := by
  obtain ⟨t, us, rfl, ht, hus⟩ := written_cons h
  cases hus
  exact ⟨t, rfl, ht⟩

/-- A tree that is an operand of the tightest level is readable. -/
theorem readable_of_operand (hbegins : ∃ w ws, e.printed guard = w :: ws ∧
      w ≠ .text ")" ∧ w ≠ .text "\x7d" ∧ w ≠ .text "var")
    (h : ReadsOperand [] (e.printed guard) e (e.nesting guard)) : Readable guard e where
  begins := hbegins
  expression := (h.loosen List.nil_suffix).expression
  operand _ _ := h.loosen List.nil_suffix

/-- The operators in front of an operand are signs, so no word can be taken for one. -/
theorem isSign_unary : ∀ op ∈ unaryOperators, IsSign op = true := by decide

/-- Integers and Booleans are single words, which nothing behind can change. -/
theorem readable_int (loc : Location) (n : Int64) : Readable guard (.int loc n) := by
  refine readable_of_operand ⟨_, _, rfl, by simp⟩ fun m last ts rest hts _ _ => ?_
  obtain ⟨t, rfl, ht⟩ := written_singleton hts
  have hkind : t.kind = .integer := ht.2
  obtain ⟨hne, hdigits, hvalue⟩ := ht.1
  have hread := (readInt64_eq_some_iff hne hdigits).2 hvalue
  have hrun : (unary (nested m)).run last (t :: rest) = .ok (.int t.location n, rest) := by
    rw [run_unary_atom (ht.isAny_sign fun op hop => ⟨by simp, isSign_unary op hop⟩), run_atom hkind]
    change integer.run last (t :: rest) = _
    rw [integer, run_take_bind (by simp [hkind]), hread]
    rfl
  exact ⟨fun _ => ⟨.int t.location n, rfl, hrun⟩, fun h => absurd (Nat.zero_le m) h⟩

theorem readable_bool (loc : Location) (b : Bool) : Readable guard (.bool loc b) := by
  refine readable_of_operand ⟨_, _, rfl, by simp⟩ fun m last ts rest hts _ _ => ?_
  obtain ⟨t, rfl, ht⟩ := written_singleton hts
  have hkind : t.kind = .boolean := ht.2
  have hvalue : (t.text = "True" || t.text = "true") = b := by
    cases b <;> rcases ht.1 with h | h <;> rw [h] <;> decide
  have hrun : (unary (nested m)).run last (t :: rest) = .ok (.bool t.location b, rest) := by
    rw [run_unary_atom (ht.isAny_sign fun op hop => ⟨by simp, isSign_unary op hop⟩), run_atom hkind]
    change boolean.run last (t :: rest) = _
    rw [boolean, run_take_map (by simp [hkind]), hvalue]
  exact ⟨fun _ => ⟨.bool t.location b, rfl, hrun⟩, fun h => absurd (Nat.zero_le m) h⟩

/-- A name is no call when no parenthesis opens behind it. -/
theorem run_name {n : String} {t : Token} (hn : PlainName n) (ht : (Word.text n).Writes t)
    (hcall : (current last rest).is "(" = false) :
    (unary inner).run last (t :: rest) = .ok (.name t.location n, rest) := by
  rw [run_unary_nameOrCall hn ht, nameOrCall, name, run_take_bind (accepts_name hn ht),
    run_look_of rfl (if_neg (Bool.eq_false_iff.1 hcall)), show t.text = n from ht.1]
  rfl

/-- No name could be taken for what ends a list of arguments or a block, or begins a declaration. -/
theorem begins_name {n : String} (hn : PlainName n) :
    Word.text n ≠ .text ")" ∧ Word.text n ≠ .text "\x7d" ∧ Word.text n ≠ .text "var" := by
  refine ⟨?_, ?_, ?_⟩ <;>
    exact fun h => plainName_ne hn (by decide) (Word.text.inj h)

/-- A name reads back as it stands. -/
theorem readable_name {n : String} (loc : Location) (hn : PlainName n) :
    Readable guard (.name loc n) := by
  refine readable_of_operand ⟨_, _, rfl, begins_name hn⟩ fun m last ts rest hts _ hcall => ?_
  obtain ⟨t, rfl, ht⟩ := written_singleton hts
  have hrun : (unary (nested m)).run last (t :: rest) = .ok (.name t.location n, rest) :=
    run_name hn ht hcall
  exact ⟨fun _ => ⟨.name t.location n, rfl, hrun⟩, fun h => absurd (Nat.zero_le m) h⟩

/-! ### Parentheses -/

/-- What is read up to a closing parenthesis is read in parentheses. -/
theorem reads_in_parentheses {opening closing : Token} (hopening : (Word.text "(").Writes opening)
    (hclosing : (Word.text ")").Writes closing)
    (h : Reads fits good (inner.expression.run last (ts ++ closing :: rest))
      fun e' => .ok (e', closing :: rest)) :
    Reads fits good ((unary inner).run last (opening :: (ts ++ closing :: rest)))
      fun e' => .ok (e', rest) := by
  rw [run_unary_parenthesized hopening, parenthesized,
    run_token_bind (by rw [hopening.is_eq]; decide)]
  refine h.go.result fun e' _ => ?_
  rw [run_token_map (by rw [hclosing.is_eq]; decide)]

/-- Parentheses make an operand of the tightest kind out of any expression. -/
theorem reads_parenthesized (h : ReadsExpression opens ws e depth) :
    ReadsOperand [] (.text "(" :: ws ++ [.text ")"]) e (depth + 1) := by
  intro n last ts rest hts _ _
  rw [List.cons_append] at hts
  obtain ⟨opening, ts, rfl, hopening, hts⟩ := written_cons hts
  obtain ⟨us, us', rfl, hus, hus'⟩ := written_append hts
  obtain ⟨closing, rfl, hclosing⟩ := written_singleton hus'
  have hinside : Reads (depth + 1 ≤ n) (Alike e)
      ((nested n).expression.run last (us ++ closing :: rest))
      fun e' => .ok (e', closing :: rest) :=
    h.inside hus (stops_of_writes hclosing (by decide)) fun _ => by
      rw [current, hclosing.is_eq]
      decide
  rw [List.cons_append, List.append_assoc, List.singleton_append]
  exact reads_in_parentheses hopening hclosing hinside

/-- An operand in parentheses where it needs them. -/
theorem Readable.enclosed (h : Readable guard e) (hsuffix : levels <:+ binaryLevels) :
    ReadsOperand levels (enclose (!bare levels e) (e.printed guard)) e
      (e.nesting guard + (!bare levels e).toNat) := by
  rcases hbare : bare levels e with _ | _
  · exact (reads_parenthesized h.expression).loosen List.nil_suffix
  · exact h.operand hsuffix hbare

/-- A then-branch in parentheses where it needs them may have an `else` behind it. -/
theorem Readable.guarded (h : Readable guard e) (hguard : e.endsOpen = true → guard e = true) :
    ReadsExpression false (enclose (guard e) (e.printed guard)) e
      (e.nesting guard + (guard e).toNat) := by
  rcases hg : guard e with _ | _
  · intro n last ts rest hts hstops _
    exact h.expression n last ts rest hts hstops fun hopen => absurd (hguard hopen) (by simp [hg])
  · exact ((reads_parenthesized h.expression).loosen List.nil_suffix).expression

/-- Whether parentheses are needed or not, something stands in front that ends no list and declares
    nothing. -/
theorem enclose_begins (h : Readable guard e) (needed : Bool) (vs : List Word) :
    ∃ w ws, enclose needed (e.printed guard) ++ vs = w :: ws ∧
      w ≠ .text ")" ∧ w ≠ .text "\x7d" ∧ w ≠ .text "var" := by
  cases needed with
  | true => exact ⟨_, _, rfl, by simp⟩
  | false =>
    obtain ⟨w, ws, hws, hw⟩ := h.begins
    exact ⟨w, ws ++ vs, by rw [enclose, hws]; rfl, hw⟩

/-! ### Operators -/

/-- The operand of a sign is printed with parentheses where it needs them. -/
theorem readable_unary {op : String} (loc : Location) (hop : op ∈ unaryOperators)
    (h : Readable guard e) : Readable guard (.unary loc op e) := by
  have hne : op ≠ ")" ∧ op ≠ "\x7d" ∧ op ≠ "var" := by
    simp only [unaryOperators, List.mem_cons, List.not_mem_nil, or_false] at hop
    rcases hop with rfl | rfl <;> decide
  refine readable_of_operand ⟨_, _, rfl, by simpa using hne⟩ fun n last ts rest hts _ hcall => ?_
  obtain ⟨sign, us, rfl, hsign, hus⟩ := written_cons hts
  have hany : sign.isAny unaryOperators = true := by
    rw [hsign.isAny_eq]
    simpa using hop
  have hrun : (unary (nested n)).run last (sign :: us ++ rest)
      = ((nested n).operand.map (.unary sign.location sign.text)).run last (us ++ rest) := by
    rw [List.cons_append, unary, run_look_cons (if_pos hany), run_take_bind hany]
  change Reads _ _ ((unary (nested n)).run last _) _
  rw [hrun]
  refine ((h.enclosed List.nil_suffix).inside hus hcall).map fun e' he' => ?_
  rw [Alike, unlocated, unlocated, he', show sign.text = op from hsign.1]

/-- An operator belongs to exactly one level, which is found from the loosest one on. -/
theorem levelsOf_spec : ∀ op ∈ binaryLevels.flatten, op ∈ (levelsOf op).headD [] ∧
    op ∉ (levelsOf op).tail.flatten ∧ levelsOf op <:+ binaryLevels ∧ op ≠ "(" ∧ op ≠ "=" := by
  decide

/-- The levels from there on are the tighter ones. -/
theorem levelsOf_suffix_of_mem : ∀ levels ∈ binaryLevels.tails, ∀ op ∈ levels.flatten,
    levelsOf op <:+ levels := by decide

/-- An operator of the tables joins operands from the left. -/
theorem readable_operation {op : String} {left right : Expr} (loc : Location)
    (hop : op ∈ binaryLevels.flatten) (hleft : Readable guard left)
    (hright : Readable guard right) : Readable guard (.binary loc op left right) := by
  obtain ⟨hhead, htail, hsuffix, hcall, hassign⟩ := levelsOf_spec op hop
  have hprinted : (Expr.binary loc op left right).printed guard
      = enclose (!bare (levelsOf op) left) (left.printed guard)
        ++ .text op :: enclose (!bare (levelsOf op).tail right) (right.printed guard) := by
    rw [printed, if_neg hassign]
  have hnesting : (Expr.binary loc op left right).nesting guard
      = max (left.nesting guard + (!bare (levelsOf op) left).toNat)
        (right.nesting guard + (!bare (levelsOf op).tail right).toNat) := by
    rw [nesting, if_neg hassign]
  -- where the level of the operator is the loosest
  have hown : ReadsOperand (levelsOf op) ((Expr.binary loc op left right).printed guard)
      (.binary loc op left right) ((Expr.binary loc op left right).nesting guard) := by
    rw [hprinted, hnesting]
    have hleft' := hleft.enclosed hsuffix
    have hright' := hright.enclosed ((List.tail_suffix _).trans hsuffix)
    revert hhead htail hleft' hright'
    rcases levelsOf op with _ | ⟨operators, tighter⟩ <;> intro hhead htail hleft' hright'
    · exact absurd hhead (List.not_mem_nil)
    · intro n last ts rest hts hnext hcall'
      obtain ⟨us, vs, rfl, hus, hvs⟩ := written_append hts
      obtain ⟨sign, vs, rfl, hsign, hvs⟩ := written_cons hvs
      have hany : sign.isAny operators = true := by
        rw [hsign.isAny_eq]
        simpa using hhead
      have hleftRun := hleft' n last us (sign :: (vs ++ rest)) hus
        (by rw [current, hsign.isAny_eq]; simpa using htail)
        (by rw [current, hsign.is_eq]; simpa using hcall)
      rw [List.append_assoc, List.cons_append]
      refine (hleftRun.trans fun left' hleft'' => ?_).congr Nat.max_le.symm
      have hnext' := isAny_false_mono hnext
        (tail_flatten_subset (List.tail_suffix (operators :: tighter)))
      have hrightRun := (hright' n last vs rest hvs hnext' hcall').result
        fun right' _ => run_joining right' hnext
      have hstep : Reads (right.nesting guard + (!bare tighter right).toNat ≤ n)
          (Alike (.binary loc op left right))
          (((take (·.isAny operators) (·.expected .operand)).bind fun op =>
            (joined (nested n) tighter).map (.binary op.location op.text left')).run last
              (sign :: (vs ++ rest))) fun e' => .ok (e', rest) := by
        rw [run_take_bind hany]
        refine hrightRun.map fun right' hright'' => ?_
        rw [Alike, unlocated, unlocated, hleft'', hright'', show sign.text = op from hsign.1]
      exact Reads.loop hany hstep
  refine ⟨?_, (hown.loosen hsuffix).expression, fun hlevels hbare => ?_⟩
  · rw [hprinted]
    exact enclose_begins hleft _ _
  · rw [bare, List.contains_iff_mem] at hbare
    exact hown.loosen (levelsOf_suffix_of_mem _ ((List.mem_tails _ _).2 hlevels) op hbare)

/-- A name that nothing else can be behind a sign of assignment. -/
theorem eq_name_of_alike {l : Location} {n : String} {e' : Expr} (h : Alike (.name l n) e') :
    ∃ l', e' = .name l' n := by
  cases e' with
  | name l' n' =>
    obtain ⟨-, rfl⟩ := Expr.name.inj h
    exact ⟨l', rfl⟩
  | _ => contradiction

/-- An assignment is an expression and no operand; its value reads to the end. -/
theorem readable_assign {n : String} {value : Expr} (loc l : Location) (hn : PlainName n)
    (hvalue : Readable guard value) : Readable guard (.binary loc "=" (.name l n) value) := by
  refine ⟨⟨_, _, rfl, begins_name hn⟩, ?_, fun hlevels hbare => ?_⟩
  · intro m last ts rest hts hstops helse
    obtain ⟨t, ts, rfl, ht, hts⟩ := written_cons hts
    obtain ⟨sign, us, rfl, hsign, hus⟩ := written_cons hts
    have hoperators : (current last (sign :: (us ++ rest))).isAny binaryLevels.flatten = false := by
      rw [current, hsign.isAny_eq]
      decide
    -- the target is read as an operand that no operator follows
    have hname : Readable guard (.name l n) := readable_name l hn
    have htarget := hname.operand List.suffix_rfl rfl m last [t] (sign :: (us ++ rest))
      (.cons ht .nil) (isAny_false_mono hoperators (by decide))
      (by rw [current, hsign.is_eq]; decide)
    have hbinary := htarget.result fun e' _ => run_joining e' hoperators
    have hfits : 0 ≤ m ∧ value.nesting guard + 1 ≤ m
        ↔ (Expr.binary loc "=" (.name l n) value).nesting guard ≤ m := by
      simp [nesting]
    refine Reads.congr (Reads.bind hbinary fun target htarget' => ?_) hfits
    obtain ⟨l', rfl⟩ := eq_name_of_alike htarget'
    have hsign' : sign.is "=" = true := by
      rw [hsign.is_eq]
      decide
    have hvalue' := hvalue.expression.inside (n := m) hus hstops fun hopen => helse <| by
      simp [endsOpen, hopen]
    rw [run_look_cons (if_pos hsign')]
    change Reads _ _ (((token "=").bind fun op => (nested m).expression.map
      (Expr.binary op.location op.text (.name l' n))).run last (sign :: (us ++ rest))) _
    rw [run_token_bind hsign']
    refine hvalue'.map fun value' hvalue'' => ?_
    rw [Alike, unlocated, unlocated, hvalue'', show sign.text = "=" from hsign.1]
    rfl
  · -- an assignment is no operand as it is
    rw [bare, List.contains_iff_mem] at hbare
    obtain ⟨operators, hmem, hop⟩ := List.mem_flatten.1 hbare
    exact absurd (List.mem_flatten.2 ⟨operators, hlevels.subset hmem, hop⟩) (by decide)

/-! ### Conditionals -/

/-- What follows the then-branch of a conditional. -/
def conditionalEnd (inner : Nested) (opening : Token) (condition thenBranch : Expr) :
    Parser false Expr :=
  look fun t =>
    if t.is "else" then
      relax <| (token "else").bind fun _ => inner.expression.map fun elseBranch =>
        .ifElse opening.location condition thenBranch elseBranch
    else pure (.ifThen opening.location condition thenBranch)

/-- A conditional is read up to the end of its then-branch, and goes on from there. -/
theorem reads_conditional {condition thenBranch : Expr} {ws vs : List Word} {depth depth' : Nat}
    {opens opens' : Bool} {good : Expr → Prop} {fits : Prop} {us : List Token}
    (hcondition : ReadsExpression opens ws condition depth)
    (hthen : ReadsExpression opens' vs thenBranch depth')
    (hts : Written (.text "if" :: ws ++ .text "then" :: vs) ts)
    (hstops : Stops (current last us))
    (helse : opens' = true → (current last us).is "else" = false)
    (hgood : ∀ opening condition' thenBranch', Alike condition condition' →
      Alike thenBranch thenBranch' →
        Reads fits good ((conditionalEnd (nested n) opening condition' thenBranch').run last us)
          fun e' => .ok (e', rest)) :
    Reads ((depth + 1 ≤ n ∧ depth' + 1 ≤ n) ∧ fits) good
      ((unary (nested n)).run last (ts ++ us)) fun e' => .ok (e', rest) := by
  rw [List.cons_append] at hts
  obtain ⟨opening, ts, rfl, hopening, hts⟩ := written_cons hts
  obtain ⟨ts, ts', rfl, hws, hts'⟩ := written_append hts
  obtain ⟨thenWord, ts', rfl, hthenWord, hvs⟩ := written_cons hts'
  have hthenIs : thenWord.is "then" = true := by
    rw [hthenWord.is_eq]
    decide
  rw [List.cons_append, List.append_assoc, List.cons_append, run_unary_conditional hopening,
    conditional, run_token_bind (by rw [hopening.is_eq]; decide)]
  refine Reads.congr (Reads.bind (hcondition.inside hws (stops_of_writes hthenWord (by decide))
    fun _ => by rw [current, hthenWord.is_eq]; decide) fun condition' hcondition' => ?_)
    and_assoc.symm
  rw [run_token_bind hthenIs]
  exact Reads.bind (hthen.inside hvs hstops helse) fun thenBranch' hthen' =>
    hgood opening condition' thenBranch' hcondition' hthen'

/-- A conditional ends where its branch does. -/
theorem readable_ifThen {condition thenBranch : Expr} (loc : Location)
    (hcondition : Readable guard condition) (hthen : Readable guard thenBranch) :
    Readable guard (.ifThen loc condition thenBranch) := by
  refine ⟨⟨_, _, rfl, by simp⟩, ?_, fun _ hbare => absurd hbare Bool.false_ne_true⟩
  intro n last ts rest hts hstops helse
  have hfits : (condition.nesting guard + 1 ≤ n ∧ thenBranch.nesting guard + 1 ≤ n) ∧ True
      ↔ (Expr.ifThen loc condition thenBranch).nesting guard ≤ n := by
    rw [and_true, nesting, Nat.max_le]
  have hunary : Reads ((Expr.ifThen loc condition thenBranch).nesting guard ≤ n)
      (Alike (.ifThen loc condition thenBranch)) ((unary (nested n)).run last (ts ++ rest))
      fun e' => .ok (e', rest) := by
    refine (reads_conditional hcondition.expression hthen.expression hts hstops
      (fun _ => helse rfl) fun opening condition' thenBranch' hcondition' hthen' => ?_).congr hfits
    rw [conditionalEnd, run_look_of rfl (if_neg (Bool.eq_false_iff.1 (helse rfl)))]
    refine reads_ok ?_ trivial
    rw [Alike, unlocated, unlocated, hcondition', hthen']
  exact reads_assignment_of_unary hunary hstops

/-- The guard keeps an open conditional in front of `else` in parentheses, or the `else` would be
    taken for its own. -/
theorem readable_ifElse {condition thenBranch elseBranch : Expr} (loc : Location)
    (hguard : thenBranch.endsOpen = true → guard thenBranch = true)
    (hcondition : Readable guard condition) (hthen : Readable guard thenBranch)
    (helse : Readable guard elseBranch) :
    Readable guard (.ifElse loc condition thenBranch elseBranch) := by
  refine ⟨⟨_, _, rfl, by simp⟩, ?_, fun _ hbare => absurd hbare Bool.false_ne_true⟩
  intro n last ts rest hts hstops hopen
  have hfits : (condition.nesting guard + 1 ≤ n ∧
        thenBranch.nesting guard + (guard thenBranch).toNat + 1 ≤ n) ∧
        elseBranch.nesting guard + 1 ≤ n
      ↔ (Expr.ifElse loc condition thenBranch elseBranch).nesting guard ≤ n := by
    rw [nesting, Nat.max_le, Nat.max_le, and_assoc]
  rw [printed] at hts
  obtain ⟨us, us', rfl, hus, hus'⟩ := written_append hts
  obtain ⟨elseWord, vs, rfl, helseWord, hvs⟩ := written_cons hus'
  have helseIs : elseWord.is "else" = true := by
    rw [helseWord.is_eq]
    decide
  rw [List.append_assoc, List.cons_append]
  have hunary : Reads ((Expr.ifElse loc condition thenBranch elseBranch).nesting guard ≤ n)
      (Alike (.ifElse loc condition thenBranch elseBranch))
      ((unary (nested n)).run last (us ++ elseWord :: (vs ++ rest))) fun e' => .ok (e', rest) := by
    refine (reads_conditional hcondition.expression (hthen.guarded hguard) hus
      (stops_of_writes helseWord (by decide)) (fun h => absurd h Bool.false_ne_true)
      fun opening condition' thenBranch' hcondition' hthen' => ?_).congr hfits
    rw [conditionalEnd, run_look_cons (if_pos helseIs), run_relax, run_token_bind helseIs]
    refine (helse.expression.inside hvs hstops hopen).map fun elseBranch' helse' => ?_
    rw [Alike, unlocated, unlocated, hcondition', hthen', helse']
  exact reads_assignment_of_unary hunary hstops

end ExprLang.Grammar
