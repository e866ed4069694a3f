/-
  FREE USES: the names that an expression takes from its surroundings.

  A name is used when it is read, when it is assigned to, and when it is the operator of an
  expression; `=`, `and` and `or` are no names.  A use is free unless an enclosing block has
  declared the name in an earlier statement.

  What a program takes from its surroundings are builtins, so a free use that writes overwrites a
  builtin.
-/
import ExprLang.Expr

namespace ExprLang

/-- A use of a name. -/
inductive Use where
  | read (name : String)
  | write (name : String)
  | operator (name : String)
deriving DecidableEq

namespace Use

/-- The name that is used. -/
def name : Use → String
  | read n => n
  | write n => n
  | operator n => n

/-- A use is free when its name is not declared. -/
def outside (declared : List String) (use : Use) : List Use :=
  if use.name ∈ declared then [] else [use]

end Use

namespace Expr

mutual

/-- The free uses of an expression, given the names that are declared around it. -/
def freeUses (declared : List String) : Expr → List Use
  | .int _ _ => []
  | .bool _ _ => []
  | .unit _ => []
  | .name _ n => Use.outside declared (.read n)
  | .unary _ op operand =>
    Use.outside declared (.operator (unaryName op)) ++ freeUses declared operand
  | .binary _ op left right =>
    if op = "=" then
      (match left with
        | .name _ n => Use.outside declared (.write n)
        | _ => freeUses declared left) ++ freeUses declared right
    else if op = "and" ∨ op = "or" then freeUses declared left ++ freeUses declared right
    else Use.outside declared (.operator op) ++ freeUses declared left ++ freeUses declared right
  | .ifThen _ condition thenBranch => freeUses declared condition ++ freeUses declared thenBranch
  | .ifElse _ condition thenBranch elseBranch =>
    freeUses declared condition ++ freeUses declared thenBranch ++ freeUses declared elseBranch
  | .call _ function arguments => freeUses declared function ++ freeUsesAll declared arguments
  | .var _ _ value => freeUses declared value
  | .block _ statements => freeUsesBody declared statements

/-- The free uses of some operands. -/
def freeUsesAll (declared : List String) : List Expr → List Use
  | [] => []
  | e :: rest => freeUses declared e ++ freeUsesAll declared rest

/-- The free uses of some statements; what one declares is declared for those behind it. -/
def freeUsesBody (declared : List String) : List Expr → List Use
  | [] => []
  | e :: rest =>
    freeUses declared e ++
      match e with
      | .var _ n _ => freeUsesBody (n :: declared) rest
      | _ => freeUsesBody declared rest

end

/-! ## The three meanings of a binary operator -/

section

variable {declared : List String} {loc : Location} {op : String} {left right : Expr}

/-- An assignment writes its name before it uses what its right side does. -/
theorem freeUses_assign {nameLoc : Location} {n : String} :
    freeUses declared (.binary loc "=" (.name nameLoc n) right) =
      Use.outside declared (.write n) ++ freeUses declared right := by
  rw [freeUses, if_pos rfl]

theorem freeUses_logic (hop : op = "and" ∨ op = "or") :
    freeUses declared (.binary loc op left right) =
      freeUses declared left ++ freeUses declared right := by
  have hassign : op ≠ "=" := by rcases hop with rfl | rfl <;> decide
  rw [freeUses.eq_def]
  simp only [if_neg hassign, if_pos hop]

theorem freeUses_operation (hassign : op ≠ "=") (hlogic : ¬(op = "and" ∨ op = "or")) :
    freeUses declared (.binary loc op left right) =
      Use.outside declared (.operator op) ++
        (freeUses declared left ++ freeUses declared right) := by
  rw [freeUses.eq_def]
  simp only [if_neg hassign, if_neg hlogic, List.append_assoc]

end

/-- The names of the free uses of an expression. -/
def freeNames (e : Expr) : List String := (e.freeUses []).map Use.name

/-- Whether a program assigns to no name but those that it has declared. -/
def KeepsBuiltins (program : Expr) : Prop := ∀ n, Use.write n ∉ program.freeUses []

end Expr

end ExprLang
