/-
  WELL-FORMED TREES: what every parsed program looks like, node by node.

  `Expr.WellFormed` speaks about the nodes of a tree and the nodes directly below them, and not
  about the places that the grammar has for them (`Expr.Fits`).  What fits a place hands a place
  on to each of its children (`fits_child`), so every node of a parsed program fits somewhere, and
  all clauses are read off that.
-/
import ExprLang.Expr.Nodes
import ExprLang.Proofs.ParsedTrees

namespace ExprLang

namespace Expr

/-- Whether a tree is a declaration. -/
def isDeclaration : Expr → Bool
  | .var _ _ _ => true
  | _ => false

/-- Whether a tree is a unit literal. -/
def isUnit : Expr → Bool
  | .unit _ => true
  | _ => false

/-- Whether a tree is a block. -/
def isBlock : Expr → Bool
  | .block _ _ => true
  | _ => false

/-- What the grammar promises of every node of a program. -/
structure WellFormed (e : Expr) : Prop where
  /-- Only names are assigned to. -/
  target : ∀ loc left right, .binary loc "=" left right ∈ e.nodes → left.isName = true
  /-- Every other operator between operands is one of the table. -/
  operator : ∀ loc op left right, .binary loc op left right ∈ e.nodes → op ≠ "=" →
    op ∈ Grammar.binaryLevels.flatten
  /-- Operators in front of an operand are `-` and `not`. -/
  unaryOperator : ∀ loc op operand, .unary loc op operand ∈ e.nodes → op = "-" ∨ op = "not"
  /-- Only names are called. -/
  callee : ∀ loc function arguments, .call loc function arguments ∈ e.nodes →
    function.isName = true
  /-- No keyword is a name. -/
  name : ∀ loc n, .name loc n ∈ e.nodes → n ∉ keywords
  /-- No keyword is declared. -/
  declared : ∀ loc n value, .var loc n value ∈ e.nodes → n ∉ keywords
  /-- Declarations stand directly in a block. -/
  declaration : e.isDeclaration = false ∧ ∀ node ∈ e.nodes, ∀ child ∈ node.children,
    child.isDeclaration = true → node.isBlock = true
  /-- Unit literals stand directly in a block. -/
  unit : e.isUnit = false ∧ ∀ node ∈ e.nodes, ∀ child ∈ node.children,
    child.isUnit = true → node.isBlock = true
  /-- In a block they stand behind other statements, and nothing behind them. -/
  ending : ∀ loc front literal back, .block loc (front ++ literal :: back) ∈ e.nodes →
    literal.isUnit = true → front ≠ [] ∧ back = []

variable {names : String → Prop} {e child : Expr} {place : Place}

theorem WellFormed.exists_target {loc : Location} {left right : Expr} (h : e.WellFormed)
    (hnode : .binary loc "=" left right ∈ e.nodes) : ∃ nameLoc n, left = .name nameLoc n := by
  have hname := h.target loc left right hnode
  cases left with
  | name nameLoc n => exact ⟨nameLoc, n, rfl⟩
  | _ => contradiction

/-! ## Places of children -/

theorem fits_of_mem_fitAll {es : List Expr} (h : FitAll names es) (hchild : child ∈ es) :
    child.Fits names .value := by
  induction es with
  | nil => contradiction
  | cons first rest ih =>
    rcases List.mem_cons.1 hchild with rfl | hchild
    · exact h.1
    · exact ih h.2 hchild

theorem fits_of_mem_fitBody {es : List Expr} (h : FitBody names place es) (hchild : child ∈ es) :
    ∃ place', child.Fits names place' := by
  induction es generalizing place with
  | nil => contradiction
  | cons first rest ih =>
    rcases List.mem_cons.1 hchild with rfl | hchild
    · exact ⟨_, h.1⟩
    · exact ih h.2 hchild

/-- The children of a node that is no block are values. -/
theorem fits_value_child (h : e.Fits names place) (hblock : e.isBlock = false) :
    ∀ child ∈ e.children, child.Fits names .value := by
  cases e with
  | int | bool | unit | name => exact List.forall_mem_nil _
  | unary loc op operand => exact List.forall_mem_singleton.2 h.2
  | binary loc op left right =>
    exact List.forall_mem_cons.2 ⟨h.2.1, List.forall_mem_singleton.2 h.2.2⟩
  | ifThen loc condition thenBranch =>
    exact List.forall_mem_cons.2 ⟨h.1, List.forall_mem_singleton.2 h.2⟩
  | ifElse loc condition thenBranch elseBranch =>
    exact List.forall_mem_cons.2 ⟨h.1, List.forall_mem_cons.2 ⟨h.2.1,
      List.forall_mem_singleton.2 h.2.2⟩⟩
  | call loc function arguments =>
    exact List.forall_mem_cons.2 ⟨h.2.1, fun _ hmem => fits_of_mem_fitAll h.2.2 hmem⟩
  | var loc n value => exact List.forall_mem_singleton.2 h.2.2
  | block loc statements => contradiction

/-- The children of what fits a place fit places. -/
theorem fits_child (h : e.Fits names place) (hchild : child ∈ e.children) :
    ∃ place', child.Fits names place' := by
  cases hblock : e.isBlock with
  | false => exact ⟨_, fits_value_child h hblock child hchild⟩
  | true =>
    cases e with
    | block loc statements => exact fits_of_mem_fitBody h hchild
    | _ => contradiction

/-- Every node of what fits a place fits one. -/
theorem fits_node (h : e.Fits names place) :
    ∀ node ∈ e.nodes, ∃ place', node.Fits names place' :=
  inherit (fun e => ∃ place, e.Fits names place) (fun _ ⟨_, h⟩ _ hchild => fits_child h hchild)
    ⟨place, h⟩

/-- A value is no declaration and no unit literal. -/
theorem plain_of_fits_value (h : e.Fits names .value) :
    e.isDeclaration = false ∧ e.isUnit = false := by
  cases e with
  | unit => contradiction
  | var => exact absurd rfl h.1
  | _ => exact ⟨rfl, rfl⟩

/-- A unit literal fits the end of a block only, and behind other statements. -/
theorem ending_of_fitBody {front back : List Expr} {loc : Location}
    (h : FitBody names place (front ++ .unit loc :: back)) :
    back = [] ∧ (front = [] → place = .ending) := by
  induction front generalizing place with
  | nil =>
    have hplace : (if back.isEmpty then place else .statement) = Place.ending := h.1
    cases back with
    | nil => exact ⟨rfl, fun _ => hplace⟩
    | cons => contradiction
  | cons first rest ih => exact ⟨(ih h.2).1, nofun⟩

/-- What fits the place of a value, with names that are no keywords, is well formed. -/
theorem wellFormed_of_fits (hnames : ∀ n, names n → n ∉ keywords) (h : e.Fits names .value) :
    e.WellFormed := by
  -- every clause speaks of one node, and this fits the place where it stands
  have hnode := fits_node h
  have hplain := plain_of_fits_value h
  have hchild : ∀ node ∈ e.nodes, ∀ child ∈ node.children, node.isBlock = false →
      child.isDeclaration = false ∧ child.isUnit = false := by
    intro node hmem child hchild hblock
    obtain ⟨place, hfits⟩ := hnode node hmem
    exact plain_of_fits_value (fits_value_child hfits hblock child hchild)
  have hoperation : ∀ loc op left right, .binary loc op left right ∈ e.nodes →
      op = "=" ∧ left.isName = true ∨ op ∈ Grammar.binaryLevels.flatten := by
    intro loc op left right hmem
    obtain ⟨place, hfits⟩ := hnode _ hmem
    exact hfits.1
  refine
    { target := ?target, operator := ?operator, unaryOperator := ?unaryOperator,
      callee := ?callee, name := ?name, declared := ?declared,
      declaration := ⟨hplain.1, ?declaration⟩, unit := ⟨hplain.2, ?unit⟩, ending := ?ending }
  case target =>
    intro loc left right hmem
    have hassign : "=" ∉ Grammar.binaryLevels.flatten := by decide
    rcases hoperation _ _ _ _ hmem with hname | hop
    · exact hname.2
    · exact absurd hop hassign
  case operator =>
    intro loc op left right hmem hassign
    exact (hoperation _ _ _ _ hmem).resolve_left fun h => hassign h.1
  case unaryOperator =>
    intro loc op operand hmem
    obtain ⟨place, hfits⟩ := hnode _ hmem
    simpa [Grammar.unaryOperators] using hfits.1
  case callee =>
    intro loc function arguments hmem
    obtain ⟨place, hfits⟩ := hnode _ hmem
    exact hfits.1
  case name =>
    intro loc n hmem
    obtain ⟨place, hfits⟩ := hnode _ hmem
    exact hnames n hfits
  case declared =>
    intro loc n value hmem
    obtain ⟨place, hfits⟩ := hnode _ hmem
    exact hnames n hfits.2.1
  case declaration =>
    intro node hmem child hmem' hdeclaration
    cases hblock : node.isBlock with
    | true => rfl
    | false =>
      rw [(hchild node hmem child hmem' hblock).1] at hdeclaration
      contradiction
  case unit =>
    intro node hmem child hmem' hunit
    cases hblock : node.isBlock with
    | true => rfl
    | false =>
      rw [(hchild node hmem child hmem' hblock).2] at hunit
      contradiction
  case ending =>
    intro loc front literal back hmem hunit
    obtain ⟨place, hfits⟩ := hnode _ hmem
    cases literal with
    | unit unitLoc =>
      have hbody : FitBody names .statement (front ++ .unit unitLoc :: back) := hfits
      obtain ⟨hback, hfront⟩ := ending_of_fitBody hbody
      exact ⟨fun h => Place.noConfusion (hfront h), hback⟩
    | _ => contradiction

end Expr

/-- Every parsed tree is well formed, whatever kinds and spellings the tokens have. -/
theorem wellFormed_of_parse {tokens : List Token} {e : Expr}
    (h : Grammar.parse tokens = .ok (some e)) : e.WellFormed :=
  Expr.wellFormed_of_fits (fun _ hn => hn.2) (Grammar.fits_of_parse_any h)

/-- Tokens of kinds that the lexer never gives to these words. -/
theorem wellFormed_of_parse_block : ∃ e, Grammar.parse
      [⟨.punctuation, "\x7b", .of 1 1⟩, ⟨.operator, "var", .of 1 2⟩, ⟨.identifier, "true", .of 1 6⟩,
       ⟨.integer, "=", .of 1 10⟩, ⟨.boolean, "not", .of 1 12⟩, ⟨.boolean, "True", .of 1 16⟩,
       ⟨.identifier, ";", .of 1 20⟩, ⟨.integer, "\x7d", .of 1 22⟩] = .ok (some e) ∧
    e.WellFormed := by
  have hparse : Grammar.parse
      [⟨.punctuation, "\x7b", .of 1 1⟩, ⟨.operator, "var", .of 1 2⟩, ⟨.identifier, "true", .of 1 6⟩,
       ⟨.integer, "=", .of 1 10⟩, ⟨.boolean, "not", .of 1 12⟩, ⟨.boolean, "True", .of 1 16⟩,
       ⟨.identifier, ";", .of 1 20⟩, ⟨.integer, "\x7d", .of 1 22⟩] = .ok (some (.block (.of 1 1)
        [.var (.of 1 2) "true" (.unary (.of 1 12) "not" (.bool (.of 1 16) true)),
         .unit (.of 1 20)])) := by with_unfolding_all rfl
  exact ⟨_, hparse, wellFormed_of_parse hparse⟩

end ExprLang
