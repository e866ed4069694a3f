/-
  RELABELING: the same thing at other places, or under other names.

  `move place` sends every location of a thing through `place` and leaves the rest as it is.  What
  two things have in common apart from their locations is what they are once all of these are
  forgotten (`Location.forget`).

  A `Renaming` gives every name another one.  No two names become the same, and the reserved names
  stay what they are, so a program finds the builtins where they were.  `relabel place r` moves a
  tree or an error and renames the variables in it.  Operators are kept by their spelling and are
  no variables.
-/
import ExprLang.Program

namespace ExprLang

/-! ## Places -/

namespace Position

/-- The position so many rows further down. -/
def down (rows : Nat) (p : Position) : Position := ⟨p.row + rows, p.column⟩

end Position

namespace Location

/-- The location so many rows further down. -/
def down (rows : Nat) : Location → Location
  | .known p => .known (p.down rows)
  | .synthetic => .synthetic

/-- No matter where. -/
def forget (_ : Location) : Location := .synthetic

end Location

section Places

variable (place : Location → Location)

def Token.move (t : Token) : Token := { t with location := place t.location }

def LexError.move : LexError → LexError
  | .unexpectedCharacter c loc => .unexpectedCharacter c (place loc)
  | .unterminatedComment loc => .unterminatedComment (place loc)

def ParseError.move : ParseError → ParseError
  | .expected wanted found loc => .expected wanted found (place loc)
  | .missingSemicolon found loc => .missingSemicolon found (place loc)
  | .trailingToken found loc => .trailingToken found (place loc)
  | .invalidAssignmentTarget loc => .invalidAssignmentTarget (place loc)
  | .integerOutOfRange literal loc => .integerOutOfRange literal (place loc)
  | .misplacedDeclaration loc => .misplacedDeclaration (place loc)
  | .reservedWord word loc => .reservedWord word (place loc)
  | .tooDeep loc => .tooDeep (place loc)

def Instr.move (i : Instr) : Instr := { i with location := place i.location }

def Problem.move : Problem → Problem
  | .repeatedLabel i label => .repeatedLabel (i.move place) label
  | .missingTarget i target => .missingTarget (i.move place) target
  | .readBeforeWritten i v => .readBeforeWritten (i.move place) v
  | .overwritesReserved i v => .overwritesReserved (i.move place) v
  | .writtenAgain i v => .writtenAgain (i.move place) v

end Places

/-! ## Names -/

/-- Other names for the variables of a program: different ones for different names, and the same
    for those that have a meaning before the program starts. -/
structure Renaming where
  apply : String → String
  injective : ∀ {m n}, apply m = apply n → m = n
  reserved : ∀ {n}, n ∈ reservedNames → apply n = n

namespace Renaming

instance : CoeFun Renaming fun _ => String → String := ⟨Renaming.apply⟩

/-- Every name stays as it is. -/
def none : Renaming := ⟨id, id, fun _ => rfl⟩

end Renaming

/-- The same bindings under other names. -/
def Frame.rename {α : Type} (r : Renaming) (frame : Frame α) : Frame α :=
  frame.map fun binding => (r binding.1, binding.2)

/-- The same chain of scopes under other names. -/
def Scopes.rename {α : Type} (r : Renaming) : Scopes α → Scopes α
  | .root frame => .root (frame.rename r)
  | .child frame outer => .child (frame.rename r) (outer.rename r)

/-- The same state of evaluation under other names. -/
def Eval.State.rename (r : Renaming) (s : Eval.State) : Eval.State :=
  { s with scopes := s.scopes.rename r }

/-- A role names a variable when a value is assigned to it, and the function of a call. -/
def Role.rename (r : Renaming) : Role → Role
  | .assignedTo name => .assignedTo (r name)
  | .argument number function => .argument number (r function)
  | role => role

/-! ## Places and names -/

section Labels

variable (place : Location → Location) (r : Renaming)

mutual

/-- The same tree at other places and under other names. -/
def Expr.relabel : Expr → Expr
  | .int loc n => .int (place loc) n
  | .bool loc b => .bool (place loc) b
  | .unit loc => .unit (place loc)
  | .name loc n => .name (place loc) (r n)
  | .unary loc op operand => .unary (place loc) op operand.relabel
  | .binary loc op left right => .binary (place loc) op left.relabel right.relabel
  | .ifThen loc condition thenBranch =>
    .ifThen (place loc) condition.relabel thenBranch.relabel
  | .ifElse loc condition thenBranch elseBranch =>
    .ifElse (place loc) condition.relabel thenBranch.relabel elseBranch.relabel
  | .call loc function arguments =>
    .call (place loc) function.relabel (Expr.relabelAll arguments)
  | .var loc n value => .var (place loc) (r n) value.relabel
  | .block loc statements => .block (place loc) (Expr.relabelAll statements)

/-- The same trees at other places and under other names. -/
def Expr.relabelAll : List Expr → List Expr
  | [] => []
  | e :: rest => e.relabel :: Expr.relabelAll rest

end

theorem Expr.relabelAll_eq_map (es : List Expr) :
    Expr.relabelAll place r es = es.map (Expr.relabel place r) := by
  induction es with
  | nil => rfl
  | cons e rest ih => simp only [Expr.relabelAll, List.map_cons, ih]

def TypeError.relabel : TypeError → TypeError
  | .undefinedName name loc => .undefinedName (r name) (place loc)
  | .mismatch role expected found loc => .mismatch (role.rename r) expected found (place loc)
  | .unequalOperands op left right loc => .unequalOperands op left right (place loc)
  | .branchMismatch thenType elseType loc => .branchMismatch thenType elseType (place loc)
  | .notAssignable loc => .notAssignable (place loc)
  | .notAFunction found loc => .notAFunction found (place loc)
  | .arityMismatch function expected found loc =>
    .arityMismatch (r function) expected found (place loc)

def LoweringError.relabel : LoweringError → LoweringError
  | .undefinedName name loc => .undefinedName (r name) (place loc)
  | .notAssignable loc => .notAssignable (place loc)

def RuntimeError.relabel : RuntimeError → RuntimeError
  | .undefinedName name loc => .undefinedName (r name) (place loc)
  | .notABool found loc => .notABool found (place loc)
  | .notAFunction found loc => .notAFunction found (place loc)
  | .notAssignable loc => .notAssignable (place loc)
  | .fault cause loc => .fault cause (place loc)

/-- The same draft at other places and under other names. -/
def Draft.relabel (d : Draft) : Draft :=
  { d with scopes := d.scopes.rename r, code := d.code.map (Instr.move place) }

end Labels

end ExprLang
