/-
  TREE HEIGHT: how high the tree of a program can be.

  The bound on nesting counts expressions inside expressions.  At each level at most eight nodes
  stand below each other: an operation of each of the six levels of operators, a block, and a
  declaration in it.  So a parsed tree has at most eight times as many layers as there are levels
  (`nested_shallow`).

  What the bound does not count is the operators of one run: the parser joins them in a loop, and
  each of them is a node on top of the tree so far.  The height of a tree is bounded by its layers
  and its longest run (`height_le_of_runLength`), but no bound holds for all programs
  (`parse_sumTokens`).
-/
import ExprLang.Expr.Nodes
import ExprLang.Proofs.ParsePrinted

namespace ExprLang

namespace Expr

variable {e child left right : Expr} {loc : Location} {op : String} {n k : Nat}

/-! ## Height and layers -/

/-- The height of a tree bounds those of its children, and is no higher than they make it. -/
theorem height_le_iff : e.height ≤ n + 1 ↔ ∀ child ∈ e.children, child.height ≤ n :=
  heightBy_le_iff

/-- The same for layers, where a run of operators of one level counts once. -/
theorem layers_le_iff : e.layers ≤ n + 1 ↔ ∀ part ∈ e.parts, part.layers ≤ n := heightBy_le_iff

/-- Every part of a node has fewer layers. -/
theorem layers_lt_of_mem_parts {part : Expr} (h : part ∈ e.parts) : part.layers < e.layers :=
  heightBy_lt h

/-- A run is in one layer with the run that it continues. -/
theorem layers_le_of_continues (h : left.continues op = true) :
    left.layers ≤ (binary loc op left right).layers := by
  have hroot : (binary loc op left right).layers = _ + 1 := heightBy.eq_def ..
  rw [hroot, layers_le_iff]
  intro part hpart
  refine layers_le_iff.1 (Nat.le_of_eq hroot) part ?_
  rw [parts_binary, if_pos h]
  exact List.mem_append_left _ hpart

/-- One step down leads to the next layer, or to a shorter run in the same one. -/
theorem layers_child (h : child ∈ e.children) :
    child.layers < e.layers ∨ child.layers ≤ e.layers ∧ child.runLength < e.runLength := by
  cases e with
  | binary loc op left right =>
    simp only [children, List.mem_cons, List.not_mem_nil, or_false] at h
    rcases h with rfl | rfl
    · by_cases hrun : child.continues op = true
      · refine .inr ⟨layers_le_of_continues hrun, ?_⟩
        rw [runLength, if_pos hrun]
        exact Nat.lt_succ_self _
      · refine .inl (layers_lt_of_mem_parts ?_)
        simp [parts_binary, hrun]
    · exact .inl (layers_lt_of_mem_parts (by simp [parts_binary]))
  | _ => exact .inl (layers_lt_of_mem_parts h)

/-- A run has at least one operand. -/
theorem runLength_pos (e : Expr) : 0 < e.runLength := by
  unfold runLength
  split
  · split <;> omega
  · exact Nat.one_pos

/-- Where no run is longer than `k`, the height is at most `k` times the layers. -/
theorem height_le_of_runLength (hrun : ∀ node ∈ e.nodes, node.runLength ≤ k) :
    e.height ≤ k * e.layers := by
  -- of the first layer only the nodes from the root down count, so the whole run is not used up
  suffices h : e.height + k ≤ k * e.layers + e.runLength by
    have := hrun e e.self_mem_nodes
    omega
  induction e using childwise with
  | step e ih =>
    have hroot := runLength_pos e
    have hlayers : k ≤ k * e.layers := Nat.le_mul_of_pos_right k (heightBy_pos e)
    suffices h : e.height ≤ k * e.layers + e.runLength - k - 1 + 1 by omega
    refine height_le_iff.2 fun child hchild => ?_
    have hheight := ih child hchild fun node hnode => hrun node (mem_nodes_of_child hchild hnode)
    rcases layers_child hchild with hnext | ⟨hsame, hshorter⟩
    · have hlayer : k * (child.layers + 1) ≤ k * e.layers := Nat.mul_le_mul_left k hnext
      have := hrun child (mem_nodes_of_child hchild child.self_mem_nodes)
      rw [Nat.mul_succ] at hlayer
      omega
    · have hlayer : k * child.layers ≤ k * e.layers := Nat.mul_le_mul_left k hsame
      omega

end Expr

/-! ## The layers of a parsed tree -/

namespace Grammar

open ExprLang.Parser ExprLang.Expr

variable {last : Location} {n : Nat} {inner : Nested}

/-- A parser builds trees of at most so many layers. -/
def Shallow (last : Location) (n : Nat) {c : Bool} (p : Parser c Expr) : Prop :=
  Yields last p fun e => e.layers ≤ n

/-- An operation of a level, with parts of at most so many layers. -/
structure IsJoined (operators : List String) (n : Nat) (e : Expr) : Prop where
  operation : ∃ loc op left right, e = .binary loc op left right ∧ op ∈ operators
  parts : ∀ part ∈ e.parts, part.layers ≤ n

/-- One more operand joined from the right is one more part. -/
theorem isJoined_binary {operators : List String} {left right : Expr} {loc : Location}
    {op : String} (hlevel : operators ∈ binaryLevels) (hop : op ∈ operators)
    (hleft : left.layers ≤ n ∨ IsJoined operators n left) (hright : right.layers ≤ n) :
    IsJoined operators n (.binary loc op left right) := by
  refine ⟨⟨loc, op, left, right, rfl, hop⟩, fun part hpart => ?_⟩
  rw [parts_binary, List.mem_append, List.mem_singleton] at hpart
  rcases hpart with hpart | rfl
  · rcases hleft with hlow | hjoined
    · split at hpart
      · exact Nat.le_of_lt (Nat.lt_of_lt_of_le (layers_lt_of_mem_parts hpart) hlow)
      · exact List.mem_singleton.1 hpart ▸ hlow
    · obtain ⟨loc', op', left', right', rfl, hop'⟩ := hjoined.operation
      have hcontinues : (Expr.binary loc' op' left' right').continues op = true := by
        simp only [continues, List.any_eq_true, Bool.and_eq_true, List.contains_eq_mem,
          decide_eq_true_eq]
        exact ⟨operators, hlevel, hop', hop⟩
      rw [if_pos hcontinues] at hpart
      exact hjoined.parts part hpart
  · exact hright

/-- The rules one level deeper build trees of at most so many layers. -/
structure Nested.Shallow (last : Location) (n : Nat) (inner : Nested) : Prop where
  expression : Grammar.Shallow last n inner.expression
  operand : Grammar.Shallow last n inner.operand

/-- A bound may be raised. -/
theorem Shallow.weaken {m : Nat} {c : Bool} {p : Parser c Expr} (h : Shallow last m p)
    (hle : m ≤ n) : Shallow last n p :=
  Yields.mono h fun _ he => Nat.le_trans he hle

/-- Literals and names are one layer. -/
theorem shallow_integer : Shallow last 1 integer :=
  yields_bind yields_take fun t _ => by
    rcases Decimal.readInt64? t.text with _ | i
    · exact yields_fail
    · exact yields_pure (layers_le_iff.2 (by simp [parts, children]))

theorem shallow_boolean : Shallow last 1 boolean :=
  yields_map (yields_take.mono fun _ _ => layers_le_iff.2 (by simp [parts, children]))

theorem layers_name_le (loc : Location) (text : String) : (Expr.name loc text).layers ≤ 1 :=
  layers_le_iff.2 (by simp [parts, children])

section Rules

variable (hinner : inner.Shallow last n)

include hinner

/-- Every argument is an expression of the next level. -/
theorem shallow_arguments :
    Yields last (arguments inner) fun es => ∀ e ∈ es, e.layers ≤ n := by
  refine yields_look fun t => yields_ite (fun _ => yields_pure (by simp)) fun _ => ?_
  refine yields_relax (yields_bind hinner.expression fun first hfirst => ?_)
  refine yields_loop (fun es hes => yields_bind yields_take fun _ _ => yields_map ?_) (by simpa)
  refine hinner.expression.mono fun e he e' hmem => ?_
  rcases List.mem_append.1 hmem with hmem | hmem
  · exact hes e' hmem
  · exact List.mem_singleton.1 hmem ▸ he

/-- A call is one layer around its arguments and the name of its function. -/
theorem shallow_nameOrCall : Shallow last (n + 2) (nameOrCall inner) := by
  refine yields_bind yields_take fun t _ => yields_look fun next => yields_ite (fun _ => ?_)
    fun _ => ?_
  · refine yields_relax (yields_bind yields_take fun _ _ => ?_)
    refine yields_bind (shallow_arguments hinner) fun es hes => yields_map ?_
    refine yields_take.mono fun _ _ => layers_le_iff.2 fun part hpart => ?_
    rcases List.mem_cons.1 hpart with rfl | hpart
    · exact Nat.le_trans (layers_name_le _ _) (Nat.le_add_left 1 n)
    · exact Nat.le_succ_of_le (hes part hpart)
  · exact yields_pure (Nat.le_trans (layers_name_le _ _) (by omega))

/-- Parentheses are no layer themselves, but they take a level of nesting. -/
theorem shallow_parenthesized : Shallow last n (parenthesized inner) :=
  yields_bind yields_take fun _ _ => yields_bind hinner.expression fun _ he =>
    yields_map (yields_take.mono fun _ _ => he)

/-- A conditional is one layer around its parts. -/
theorem shallow_conditional : Shallow last (n + 1) (conditional inner) := by
  refine yields_bind yields_take fun _ _ => yields_bind hinner.expression fun condition hc => ?_
  refine yields_bind yields_take fun _ _ => yields_bind hinner.expression fun thenBranch ht => ?_
  refine yields_look fun t => yields_ite (fun _ => ?_) fun _ => ?_
  · refine yields_relax (yields_bind yields_take fun _ _ => yields_map ?_)
    exact hinner.expression.mono fun elseBranch he => layers_le_iff.2 (by
      simp [parts, children, hc, ht, he])
  · exact yields_pure (layers_le_iff.2 (by simp [parts, children, hc, ht]))

/-- So is a declaration around its value. -/
theorem shallow_statement : Shallow last (n + 1) (statement inner) := by
  refine yields_look fun t => yields_ite (fun _ => ?_) fun _ => ?_
  · refine yields_bind yields_take fun _ _ => yields_bind yields_take fun _ _ => ?_
    refine yields_bind yields_take fun _ _ => yields_map ?_
    exact hinner.expression.mono fun value hv => layers_le_iff.2 (by simp [parts, children, hv])
  · exact hinner.expression.mono fun e he => Nat.le_succ_of_le he

omit hinner in
/-- The statements up to a separator, a unit literal for a semicolon included. -/
theorem shallow_separator {earlier : List Expr} {e : Expr}
    (hearlier : ∀ e ∈ earlier, e.layers ≤ n + 1) (he : e.layers ≤ n + 1) :
    Yields last (separator earlier e) fun es => ∀ e ∈ es, e.layers ≤ n + 1 := by
  have hopen : ∀ e' ∈ earlier ++ [e], e'.layers ≤ n + 1 := by
    simpa [or_imp, forall_and] using ⟨hearlier, he⟩
  have hunit : ∀ loc, (Expr.unit loc).layers ≤ n + 1 := fun loc =>
    layers_le_iff.2 (by simp [parts, children])
  refine yields_look fun t => yields_ite (fun _ => ?_) fun _ => yields_ite
    (fun _ => yields_pure hopen) fun _ => yields_ite (fun _ => yields_fail) fun _ =>
    yields_ite (fun _ => yields_pure hopen) fun _ => yields_fail
  refine yields_relax (yields_bind yields_take fun semicolon _ => yields_look fun next => ?_)
  refine yields_pure ?_
  split
  · simpa [or_imp, forall_and] using ⟨hearlier, he, hunit semicolon.location⟩
  · exact hopen

/-- So is a block around its statements, of which a declaration is the highest. -/
theorem shallow_block : Shallow last (n + 2) (block inner) := by
  refine yields_bind yields_take fun opening _ => ?_
  refine yields_bind (M := fun es => ∀ e ∈ es, e.layers ≤ n + 1) ?_ fun es hes =>
    yields_map (yields_take.mono fun _ _ => layers_le_iff.2 hes)
  refine yields_loop (fun earlier hearlier => ?_) (by simp)
  exact yields_bind (shallow_statement hinner) fun e he => shallow_separator hearlier he

/-- The largest of these bounds holds for every operand. -/
theorem shallow_atom : Shallow last (n + 2) (atom inner) := by
  refine yields_look fun t => ?_
  rcases t.kind <;> simp only
  · exact yields_ite (fun _ => (shallow_conditional hinner).weaken (by omega)) fun _ =>
      yields_ite (fun _ => yields_fail) fun _ => shallow_nameOrCall hinner
  · exact shallow_integer.weaken (by omega)
  · exact shallow_boolean.weaken (by omega)
  · exact yields_fail
  · exact yields_ite (fun _ => (shallow_parenthesized hinner).weaken (by omega)) fun _ =>
      yields_ite (fun _ => shallow_block hinner) fun _ => yields_fail
  · exact yields_fail

/-- Each sign is a layer, and takes a level of nesting. -/
theorem shallow_unary : Shallow last (n + 2) (unary inner) := by
  refine yields_look fun t => yields_ite (fun _ => ?_) fun _ => shallow_atom hinner
  refine yields_bind yields_take fun op _ => yields_map ?_
  refine hinner.operand.mono fun e he => layers_le_iff.2 ?_
  simpa [parts, children] using Nat.le_succ_of_le he

omit hinner in
/-- However many operands of one level are joined, they make one layer. -/
theorem shallow_chain {operators : List String} {operand : Parser true Expr}
    (hlevel : operators ∈ binaryLevels) (hoperand : Shallow last n operand) :
    Shallow last (n + 1) (chain operators operand) := by
  refine yields_bind hoperand fun first hfirst => ?_
  refine (yields_loop (I := fun e => e.layers ≤ n ∨ IsJoined operators n e) (fun left hleft => ?_)
    (.inl hfirst)).mono fun e he => ?_
  · refine yields_bind yields_take fun op hop => yields_map ?_
    exact hoperand.mono fun right hright =>
      .inr (isJoined_binary hlevel (mem_of_isAny hop) hleft hright)
  · rcases he with he | he
    · exact Nat.le_succ_of_le he
    · exact layers_le_iff.2 he.parts

/-- Six levels of operators add six layers at most, because a run counts once. -/
theorem shallow_binary : Shallow last (n + 8) (binary inner) := by
  have hlevels : ∀ levels : List (List String), (∀ level ∈ levels, level ∈ binaryLevels) →
      Shallow last (n + 2 + levels.length) (levels.foldr chain (unary inner)) := by
    intro levels
    induction levels with
    | nil => exact fun _ => shallow_unary hinner
    | cons level rest ih =>
      intro hmem
      exact shallow_chain (hmem level List.mem_cons_self)
        (ih fun l hl => hmem l (List.mem_cons_of_mem _ hl))
  exact hlevels binaryLevels fun _ h => h

/-- An assignment is a layer around its value, which is on the next level. -/
theorem shallow_assignment : Shallow last (n + 8) (assignment inner) := by
  refine yields_bind (shallow_binary hinner) fun target htarget => yields_look fun t => ?_
  refine yields_ite (fun _ => ?_) fun _ => yields_pure htarget
  split
  · rename_i nameLoc text
    refine yields_relax (yields_bind yields_take fun op _ => yields_map ?_)
    refine hinner.expression.mono fun value hvalue => layers_le_iff.2 ?_
    have hname := layers_name_le nameLoc text
    simp only [parts_binary, continues, Bool.false_eq_true, if_false, List.mem_append,
      List.mem_singleton, forall_eq_or_imp, forall_eq]
    omega
  · exact yields_fail

end Rules

/-- With `n` levels left the rules build trees of at most `8 * n` layers. -/
theorem nested_shallow (n : Nat) : (nested n).Shallow last (8 * n) := by
  induction n with
  | zero =>
    have hdeep : Shallow last 0 tooDeep := yields_look fun _ => yields_fail
    exact ⟨hdeep, hdeep⟩
  | succ n ih => exact ⟨shallow_assignment ih, (shallow_unary ih).weaken (by omega)⟩

/-- A parsed tree has at most eight layers for each level of nesting; so has its height, for each
    node of its longest run. -/
theorem height_of_parse {tokens : List Token} {e : Expr} (h : parse tokens = .ok (some e)) :
    e.layers ≤ 8 * maxDepth ∧
      ∀ k, (∀ node ∈ e.nodes, node.runLength ≤ k) → e.height ≤ 8 * k * maxDepth := by
  obtain ⟨rest, hrun, -⟩ := run_of_parse h
  have hlayers := (nested_shallow maxDepth).expression tokens trivial e rest hrun
  refine ⟨hlayers, fun k hrun => ?_⟩
  calc e.height ≤ k * e.layers := height_le_of_runLength hrun
    _ ≤ k * (8 * maxDepth) := Nat.mul_le_mul_left k hlayers
    _ = 8 * k * maxDepth := by rw [Nat.mul_left_comm, Nat.mul_assoc]

/-- A run of two operators. -/
theorem height_of_parse_run : ∃ e,
    parse [⟨.integer, "1", .of 1 1⟩, ⟨.operator, "-", .of 1 2⟩, ⟨.integer, "2", .of 1 3⟩,
      ⟨.operator, "+", .of 1 4⟩, ⟨.integer, "3", .of 1 5⟩] = .ok (some e) ∧
    (∀ node ∈ e.nodes, node.runLength ≤ 2) ∧
    e.layers ≤ 8 * maxDepth ∧ e.height ≤ 8 * 2 * maxDepth := by
  have hparse : parse [⟨.integer, "1", .of 1 1⟩, ⟨.operator, "-", .of 1 2⟩,
      ⟨.integer, "2", .of 1 3⟩, ⟨.operator, "+", .of 1 4⟩, ⟨.integer, "3", .of 1 5⟩] =
      .ok (some (.binary (.of 1 4) "+" (.binary (.of 1 2) "-" (.int (.of 1 1) 1)
        (.int (.of 1 3) 2)) (.int (.of 1 5) 3))) := by with_unfolding_all rfl
  have hruns : ∀ node ∈ nodes (.binary (.of 1 4) "+" (.binary (.of 1 2) "-" (.int (.of 1 1) 1)
      (.int (.of 1 3) 2)) (.int (.of 1 5) 3)), node.runLength ≤ 2 := by decide +kernel
  exact ⟨_, hparse, hruns, (height_of_parse hparse).1, (height_of_parse hparse).2 2 hruns⟩

/-! ## Long sums -/

/-- A sum of ones, with so many operators. -/
def ones : Nat → Expr
  | 0 => .int .synthetic 1
  | n + 1 => .binary .synthetic "+" (ones n) (.int .synthetic 1)

/-- The tokens of the sum, all at the start of a text. -/
def sumTokens (operators : Nat) : List Token :=
  ⟨.integer, "1", .start⟩ ::
    (List.replicate operators [⟨.operator, "+", .start⟩, ⟨.integer, "1", .start⟩]).flatten

/-- Each operator of a sum is a node on top of the sum so far. -/
theorem height_of_alike_ones {n : Nat} {e : Expr} (h : Alike (ones n) e) : e.height = n + 1 := by
  have hone : ∀ e : Expr, e.unlocated = .int .synthetic 1 → e.children = [] := by
    intro e he
    cases e <;> simp_all [unlocated, children]
  induction n generalizing e with
  | zero =>
    refine Nat.le_antisymm (height_le_iff.2 ?_) (heightBy_pos e)
    simp [hone e h]
  | succ n ih =>
    cases e with
    | binary loc op left right =>
      simp only [Alike, ones, unlocated, Expr.binary.injEq] at h
      obtain ⟨-, -, hleft, hright⟩ := h
      have hheight := ih hleft
      refine Nat.le_antisymm (height_le_iff.2 ?_) (Nat.succ_le_of_lt (hheight ▸ heightBy_lt ?_))
      · have hright' : right.height ≤ 0 + 1 := height_le_iff.2 (by simp [hone right hright])
        simp only [children, List.mem_cons, List.not_mem_nil, or_false, forall_eq_or_imp, forall_eq]
        omega
      · exact List.mem_cons_self
    | _ => simp [Alike, ones, unlocated] at h

/-- The long sum is a tree that a program may have. -/
theorem fits_ones (n : Nat) : (ones n).Fits PlainName .value := by
  induction n with
  | zero => trivial
  | succ n ih => exact ⟨.inr (by decide), ih, trivial⟩

/-- A sum may stand to the left of a further operator as it is. -/
theorem bare_ones (n : Nat) : bare (levelsOf "+") (ones n) = true := by
  cases n with
  | zero => rfl
  | succ n => exact (by decide : (levelsOf "+").flatten.contains "+" = true)

/-- It is printed without parentheses. -/
theorem printed_ones (guard : Expr → Bool) (n : Nat) :
    (ones n).printed guard =
      .integer 1 :: (List.replicate n [.text "+", .integer 1]).flatten := by
  induction n with
  | zero => rfl
  | succ n ih =>
    rw [ones, printed, if_neg (by decide), bare_ones, ih, List.replicate_succ', List.flatten_concat]
    rfl

/-- So it nests nowhere. -/
theorem nesting_ones (guard : Expr → Bool) (n : Nat) : (ones n).nesting guard = 0 := by
  induction n with
  | zero => rfl
  | succ n ih =>
    rw [ones, nesting, if_neg (by decide), bare_ones, ih]
    rfl

/-- Its tokens can be written down. -/
theorem written_sumTokens (n : Nat) :
    Written (.integer 1 :: (List.replicate n [.text "+", .integer 1]).flatten) (sumTokens n) := by
  have hone : (Word.integer 1).Writes ⟨.integer, "1", .start⟩ := Word.writes_token rfl .start
  have hplus : (Word.text "+").Writes ⟨.operator, "+", .start⟩ := Word.writes_token rfl .start
  refine .cons hone ?_
  induction n with
  | zero => exact .nil
  | succ n ih => exact .cons hplus (.cons hone ih)

/-- A sum parses however long it is, and is as high as it is long. -/
theorem parse_sumTokens (n : Nat) :
    ∃ e, parse (sumTokens n) = .ok (some e) ∧ e.height = n + 1 := by
  have hread : Readable endsOpen (ones n) :=
    (readable_of_fits (fun _ h => h) .value _ (fits_ones n)).value
  have hwritten : Written ((ones n).printed endsOpen) (sumTokens n) :=
    printed_ones endsOpen n ▸ written_sumTokens n
  have hrun : Reads ((ones n).nesting endsOpen + 1 ≤ maxDepth) (Alike (ones n))
      ((nested maxDepth).expression.run (endLocation (sumTokens n)) (sumTokens n ++ []))
      fun e => .ok (e, []) :=
    hread.expression.inside hwritten (stops_endAt _) fun _ => rfl
  obtain ⟨e, halike, hok⟩ := hrun.1 (by rw [nesting_ones]; decide)
  refine ⟨e, ?_, height_of_alike_ones halike⟩
  rw [List.append_nil] at hok
  rw [sumTokens, parse, if_neg (by decide), ← sumTokens, hok]
  rfl

/-- The bound on nesting does not bound the height of a tree: a sum of 1025 ones is too high. -/
theorem height_parse_sumTokens :
    ∃ e, parse (sumTokens 1024) = .ok (some e) ∧ 16 * maxDepth < e.height := by
  obtain ⟨e, hparse, hheight⟩ := parse_sumTokens 1024
  exact ⟨e, hparse, by rw [hheight]; decide⟩

end Grammar
end ExprLang
