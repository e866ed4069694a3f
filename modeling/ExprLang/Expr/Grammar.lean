/-
  THE GRAMMAR: a list of tokens as a tree.

      expression   =  name "=" expression  |  binary
      binary       =  left-associative operators, in six levels from `or` to `*`
      unary        =  ("-" | "not") unary  |  atom
      atom         =  literal | name | call | "(" expression ")" | conditional | block
      call         =  name "(" [ expression { "," expression } ] ")"
      conditional  =  "if" expression "then" expression [ "else" expression ]
      block        =  "{" statements "}"
      statement    =  "var" name "=" expression  |  expression

  Statements are separated by semicolons, which may be left out after a compound one.  A semicolon
  in front of the closing brace makes the value of the block unit: it stands in the tree as a unit
  literal.

  NESTING is bounded.  An expression inside another, and the operand of a unary operator, are one
  level deeper; `Nested` is the pair of parsers for them, and every rule is written against the
  pair of the next level.  `nested n` has `n` levels left, and `nested 0` refuses.
-/
import ExprLang.Expr
import ExprLang.Parser.Basic

namespace ExprLang.Grammar

open ExprLang.Parser

/-- The left-associative operators, loosest level first. -/
def binaryLevels : List (List String) :=
  [["or"], ["and"], ["==", "!="], ["<", "<=", ">", ">="], ["+", "-"], ["*", "/", "%"]]

/-- The operators in front of an operand. -/
def unaryOperators : List String := ["-", "not"]

/-- The parsers of what stands one level deeper. -/
structure Nested where
  expression : Parser true Expr
  operand : Parser true Expr

/-! ## Literals and names -/

/-- An integer literal in the 64-bit range. -/
def integer : Parser true Expr :=
  (take (·.kind = .integer) (·.expected .operand)).bind fun t =>
    match Decimal.readInt64? t.text with
    | some n => pure (.int t.location n)
    | none => fail (.integerOutOfRange t.text t.location)

/-- A Boolean literal. -/
def boolean : Parser true Expr :=
  (take (·.kind = .boolean) (·.expected .operand)).map fun t =>
    .bool t.location (t.text = "True" || t.text = "true")

/-- An identifier that is no keyword. -/
def name : Parser true Token :=
  take (fun t => t.kind = .identifier && !keywords.contains t.text) fun t =>
    if t.kind = .identifier then .reservedWord t.text t.location else t.expected .name

section Rules

variable (inner : Nested)

/-! ## Calls, parentheses and conditionals -/

/-- Arguments up to the closing parenthesis. -/
def arguments : Parser false (List Expr) :=
  look fun t =>
    if t.is ")" then pure []
    else relax <| inner.expression.bind fun first =>
      loop (·.is ",")
        (fun args => (token ",").bind fun _ => inner.expression.map fun e => args ++ [e])
        [first]

/-- A name, or a call of the function that it names. -/
def nameOrCall : Parser true Expr :=
  name.bind fun t =>
    look fun next =>
      if next.is "(" then
        relax <| (token "(").bind fun _ => (arguments inner).bind fun args =>
          (take (·.is ")") (·.expected .argumentEnd)).map fun _ =>
            .call t.location (.name t.location t.text) args
      else pure (.name t.location t.text)

/-- An expression in parentheses, which leave no trace in the tree. -/
def parenthesized : Parser true Expr :=
  (token "(").bind fun _ => inner.expression.bind fun e => (token ")").map fun _ => e

/-- A conditional, with or without an else-branch. -/
def conditional : Parser true Expr :=
  (token "if").bind fun opening =>
    inner.expression.bind fun condition =>
      (token "then").bind fun _ =>
        inner.expression.bind fun thenBranch =>
          look fun t =>
            if t.is "else" then
              relax <| (token "else").bind fun _ => inner.expression.map fun elseBranch =>
                .ifElse opening.location condition thenBranch elseBranch
            else pure (.ifThen opening.location condition thenBranch)

/-! ## Blocks -/

/-- A declaration of a variable. -/
def declaration : Parser true Expr :=
  (token "var").bind fun opening =>
    name.bind fun t =>
      (token "=").bind fun _ =>
        inner.expression.map fun value => .var opening.location t.text value

/-- One statement of a block. -/
def statement : Parser true Expr :=
  look fun t => if t.is "var" then declaration inner else inner.expression

/-- What may follow a statement: a semicolon, the closing brace, or, behind a compound one, the
    next statement. -/
def separator (earlier : List Expr) (last : Expr) : Parser false (List Expr) :=
  look fun t =>
    if t.is ";" then
      relax <| (token ";").bind fun semicolon =>
        look fun next =>
          pure (if next.is "\x7d" then earlier ++ [last, .unit semicolon.location]
            else earlier ++ [last])
    else if t.is "\x7d" then pure (earlier ++ [last])
    else if t.kind = .endOfInput then fail (t.expected .statementEnd)
    else if last.isCompound then pure (earlier ++ [last])
    else fail (.missingSemicolon t.text t.location)

/-- Statements in braces. -/
def block : Parser true Expr :=
  (token "\x7b").bind fun opening =>
    (loop (fun t => !t.is "\x7d")
      (fun earlier => (statement inner).bind fun e => separator earlier e) []).bind
      fun statements => (token "\x7d").map fun _ => .block opening.location statements

/-! ## Operators -/

/-- An operand without operators. -/
def atom : Parser true Expr :=
  look fun t =>
    match t.kind with
    | .integer => integer
    | .boolean => boolean
    | .identifier =>
      if t.text = "if" then conditional inner
      else if t.text = "var" then fail (.misplacedDeclaration t.location)
      else nameOrCall inner
    | .punctuation =>
      if t.text = "(" then parenthesized inner
      else if t.text = "\x7b" then block inner
      else fail (t.expected .operand)
    | _ => fail (t.expected .operand)

/-- An operand with the operators in front of it. -/
def unary : Parser true Expr :=
  look fun t =>
    if t.isAny unaryOperators then
      (take (·.isAny unaryOperators) (·.expected .operand)).bind fun op =>
        inner.operand.map (.unary op.location op.text)
    else atom inner

/-- Operands joined from the left by operators of one level. -/
def chain (operators : List String) (operand : Parser true Expr) : Parser true Expr :=
  operand.bind
    (loop (·.isAny operators) fun left =>
      (take (·.isAny operators) (·.expected .operand)).bind fun op =>
        operand.map (.binary op.location op.text left))

/-- Operands joined by binary operators of all levels. -/
def binary : Parser true Expr := binaryLevels.foldr chain (unary inner)

/-- An assignment, or an expression without one.  The value of an assignment may be another
    assignment. -/
def assignment : Parser true Expr :=
  (binary inner).bind fun target =>
    look fun t =>
      if t.is "=" then
        match target with
        | .name _ _ =>
          relax <| (token "=").bind fun op =>
            inner.expression.map (.binary op.location op.text target)
        | _ => fail (.invalidAssignmentTarget t.location)
      else pure target

end Rules

/-! ## Nesting -/

/-- The rules for what stands one level further out. -/
def Nested.outer (inner : Nested) : Nested := ⟨assignment inner, unary inner⟩

/-- Where the nesting ends. -/
def tooDeep : Parser true Expr := look fun t => fail (.tooDeep t.location)

/-- The rules with `n` levels left. -/
def nested : Nat → Nested
  | 0 => ⟨tooDeep, tooDeep⟩
  | n + 1 => (nested n).outer

/-- Where the end marker of a list of tokens stands. -/
def endLocation (tokens : List Token) : Location :=
  match tokens.getLast? with
  | some t => t.location
  | none => .start

/-- A whole program.  No tokens are no program, which is not an error. -/
def parse (tokens : List Token) : Except ParseError (Option Expr) :=
  match tokens with
  | [] => .ok none
  | first :: _ =>
    if first.is "var" then .error (.misplacedDeclaration first.location)
    else
      match (nested maxDepth).expression.run (endLocation tokens) tokens with
      | .error e => .error e
      | .ok (e, rest) =>
        let next := current (endLocation tokens) rest
        if next.kind = .endOfInput then .ok (some e)
        else .error (.trailingToken next.text next.location)

end ExprLang.Grammar
