/-
  NODES: what stands where in a tree.

  The `children` of a node are the trees directly below it, and the nodes of a tree are the tree
  itself and the nodes of its children.  A fact about trees that follows from the same fact about
  the children holds of all trees (`childwise`).  The `targets` of a tree are the names that it
  assigns to.

  The HEIGHT of a tree is the number of nodes on the longest way down.  Left-associative operators
  of one level form a RUN, `1 - 2 + 3` say, and each operator of a run stands one level below the
  one to its right.  `layers` is the height of a tree in which every run is a single node, which
  has the operands of the run below it (`parts`).
-/
import ExprLang.Expr.Grammar

namespace ExprLang.Expr

/-! ## Children -/

/-- The trees directly below a node, from left to right. -/
def children : Expr → List Expr
  | .int _ _ => []
  | .bool _ _ => []
  | .unit _ => []
  | .name _ _ => []
  | .unary _ _ operand => [operand]
  | .binary _ _ left right => [left, right]
  | .ifThen _ condition thenBranch => [condition, thenBranch]
  | .ifElse _ condition thenBranch elseBranch => [condition, thenBranch, elseBranch]
  | .call _ function arguments => function :: arguments
  | .var _ _ value => [value]
  | .block _ statements => statements

theorem sizeOf_lt_of_mem_children {e child : Expr} (h : child ∈ e.children) :
    sizeOf child < sizeOf e := by
  cases e with
  | call loc function arguments =>
    rcases List.mem_cons.1 h with rfl | h
    · simp +arith
    · have := List.sizeOf_lt_of_mem h
      simp only [call.sizeOf_spec]
      omega
  | block loc statements =>
    have := List.sizeOf_lt_of_mem (show child ∈ statements from h)
    simp only [block.sizeOf_spec]
    omega
  | _ => grind [children]

/-- What holds of a tree whenever it holds of its children holds of every tree. -/
@[elab_as_elim]
theorem childwise {motive : Expr → Prop}
    (step : ∀ e : Expr, (∀ child ∈ e.children, motive child) → motive e) (e : Expr) : motive e :=
  step e fun child _ => childwise step child
termination_by sizeOf e
decreasing_by exact sizeOf_lt_of_mem_children (by assumption)

/-- All nodes of a tree, itself included. -/
def nodes (e : Expr) : List Expr := e :: e.children.attach.flatMap fun child => nodes child.1
termination_by sizeOf e
decreasing_by exact sizeOf_lt_of_mem_children child.2

theorem mem_nodes_iff {e node : Expr} :
    node ∈ e.nodes ↔ node = e ∨ ∃ child ∈ e.children, node ∈ child.nodes := by
  rw [nodes]
  simp

theorem self_mem_nodes (e : Expr) : e ∈ e.nodes := mem_nodes_iff.2 (.inl rfl)

theorem mem_nodes_of_child {e child node : Expr} (hchild : child ∈ e.children)
    (hnode : node ∈ child.nodes) : node ∈ e.nodes := mem_nodes_iff.2 (.inr ⟨child, hchild, hnode⟩)

/-- What every node hands on to its children the root hands on to every node. -/
theorem inherit (fact : Expr → Prop)
    (hchildren : ∀ e, fact e → ∀ child ∈ e.children, fact child) {e : Expr} (he : fact e) :
    ∀ node ∈ e.nodes, fact node := by
  induction e using childwise with
  | step e ih =>
    intro node hnode
    rcases mem_nodes_iff.1 hnode with rfl | ⟨child, hchild, hnode⟩
    · exact he
    · exact ih child hchild (hchildren e he child hchild) node hnode

/-- Below a node of a tree stand nodes of the tree. -/
theorem child_mem_nodes {e node child : Expr} (hnode : node ∈ e.nodes)
    (hchild : child ∈ node.children) : child ∈ e.nodes := by
  have hinside : ∀ node ∈ e.nodes, node.nodes ⊆ e.nodes :=
    inherit (fun node => node.nodes ⊆ e.nodes)
      (fun node hsub child hchild _ h => hsub (mem_nodes_of_child hchild h)) fun _ h => h
  exact hinside node hnode (mem_nodes_of_child hchild child.self_mem_nodes)

/-! ## Targets -/

/-- The name that a node assigns to, if it is an assignment. -/
def target? : Expr → Option String
  | .binary _ op (.name _ n) _ => if op = "=" then some n else none
  | _ => none

/-- The names that a tree assigns to. -/
def targets (e : Expr) : List String := e.nodes.filterMap target?

theorem mem_targets {e right : Expr} {loc nameLoc : Location} {n : String}
    (h : .binary loc "=" (.name nameLoc n) right ∈ e.nodes) : n ∈ e.targets :=
  List.mem_filterMap.2 ⟨_, h, rfl⟩

/-! ## Height -/

/-- The height of a tree whose nodes have certain smaller trees below them. -/
def heightBy (below : Expr → List Expr)
    (hsmaller : ∀ e, ∀ child ∈ below e, sizeOf child < sizeOf e) (e : Expr) : Nat :=
  ((below e).attach.map fun child => heightBy below hsmaller child.1).foldr max 0 + 1
termination_by sizeOf e
decreasing_by exact hsmaller e child.1 child.2

section

variable {below : Expr → List Expr} {hsmaller : ∀ e, ∀ child ∈ below e, sizeOf child < sizeOf e}
  {e : Expr} {n : Nat}

theorem heightBy_le_iff :
    heightBy below hsmaller e ≤ n + 1 ↔ ∀ child ∈ below e, heightBy below hsmaller child ≤ n := by
  have hmax : ∀ heights : List Nat, heights.foldr max 0 ≤ n ↔ ∀ height ∈ heights, height ≤ n := by
    intro heights
    induction heights with
    | nil => simp
    | cons height heights ih => rw [List.foldr_cons, Nat.max_le, ih, List.forall_mem_cons]
  rw [heightBy, Nat.add_le_add_iff_right, hmax]
  simp

theorem heightBy_pos (e : Expr) : 0 < heightBy below hsmaller e := by
  rw [heightBy]
  exact Nat.succ_pos _

/-- A tree is higher than what is below its root. -/
theorem heightBy_lt {child : Expr} (h : child ∈ below e) :
    heightBy below hsmaller child < heightBy below hsmaller e := by
  have hroot := heightBy.eq_def below hsmaller e
  rw [hroot]
  exact Nat.lt_succ_of_le (heightBy_le_iff.1 (Nat.le_of_eq hroot) child h)

end

/-- How many nodes there are on the longest way from the root of a tree to a leaf. -/
def height : Expr → Nat := heightBy children fun _ _ => sizeOf_lt_of_mem_children

/-! ## Runs -/

/-- Whether an operation, as the left operand of an operator, belongs to the same run. -/
def continues (op : String) : Expr → Bool
  | .binary _ earlier _ _ =>
    Grammar.binaryLevels.any fun level => level.contains earlier && level.contains op
  | _ => false

/-- How many operations there are in the run that ends in a node.  Any other node is a run by
    itself. -/
def runLength : Expr → Nat
  | .binary _ op left _ => if left.continues op then left.runLength + 1 else 1
  | _ => 1

/-- The children of a node, where a run is a single node. -/
def parts : Expr → List Expr
  | .binary _ op left right => (if left.continues op then left.parts else [left]) ++ [right]
  | e => e.children

theorem parts_binary (loc : Location) (op : String) (left right : Expr) :
    (binary loc op left right).parts =
      (if left.continues op then left.parts else [left]) ++ [right] := rfl

theorem sizeOf_lt_of_mem_parts : ∀ e : Expr, ∀ part ∈ e.parts, sizeOf part < sizeOf e
  | .binary loc op left right, part, h => by
    have hright : sizeOf right < sizeOf (binary loc op left right) := by simp +arith
    have hleft : sizeOf left < sizeOf (binary loc op left right) := by simp +arith
    rw [parts_binary, List.mem_append, List.mem_singleton] at h
    rcases h with h | rfl
    · split at h
      · exact Nat.lt_trans (sizeOf_lt_of_mem_parts left part h) hleft
      · exact List.mem_singleton.1 h ▸ hleft
    · exact hright
  | .int .., _, h | .bool .., _, h | .unit .., _, h | .name .., _, h | .unary .., _, h
  | .ifThen .., _, h | .ifElse .., _, h | .call .., _, h | .var .., _, h | .block .., _, h =>
    sizeOf_lt_of_mem_children h

/-- The height of a tree in which every run is a single node. -/
def layers : Expr → Nat := heightBy parts sizeOf_lt_of_mem_parts

end ExprLang.Expr
