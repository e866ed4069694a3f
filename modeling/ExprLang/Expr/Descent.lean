/-
  DESCENT: the grammar read by one cursor.

  The rules of `Expr.Grammar` hand the tokens that are left from one to the next, and each is
  written against the rules of the next level.  Here a single cursor stands over the whole list
  instead.  It counts the tokens that have been taken and the levels of nesting that are open, and
  every routine leaves it where it has come to, also when it fails.

  The routines call one another and themselves, and nothing in their form makes them end.  So a
  routine is written against the `Routines` that it calls.  `routines n` has room for `n` calls one
  inside the other; where more are wanted nothing comes of it (`none`).  A routine that ends does
  so whenever there is enough room, and one that went round for ever never would.

  A `Walk` remembers every place that the cursor has been moved to.
-/
import ExprLang.Expr.Grammar

namespace ExprLang

/-- Where the cursor stands: behind so many tokens, and so many levels deep. -/
structure Cursor where
  position : Nat
  depth : Nat

/-- Where the cursor stands, and the places it has been moved to, latest first. -/
structure Walk where
  here : Cursor
  trail : List Cursor

/-- Where every walk starts. -/
def Walk.start : Walk := ⟨⟨0, 0⟩, []⟩

/-- The walk with one more move. -/
def Walk.to (w : Walk) (place : Cursor) : Walk := ⟨place, place :: w.trail⟩

/-- A routine that moves the cursor.  It may fail, and it might not end. -/
abbrev Descent (α : Type) := ExceptT ParseError (StateT Walk Option) α

namespace Descent

open Grammar (binaryLevels unaryOperators endLocation)

/-- What a routine comes to, and where the walk has led by then; nothing if it never ends. -/
def result? {α : Type} (act : Descent α) (w : Walk) : Option (Except ParseError α × Walk) :=
  act.run.run w

/-- Move the cursor. -/
def go (place : Cursor → Cursor) : Descent Unit :=
  modify fun w => w.to (place w.here)

section

variable (tokens : List Token)

/-! ## Single tokens -/

/-- The token at the cursor, or the end marker. -/
def peek : Descent Token := do
  let w ← get
  return tokens[w.here.position]?.getD (Token.endAt (endLocation tokens))

/-- The token at the cursor, which moves behind it.  It stays at the end of the list. -/
def advance : Descent Token := do
  let t ← peek tokens
  let w ← get
  if w.here.position < tokens.length then
    go fun here => { here with position := here.position + 1 }
  return t

/-- Take the token at the cursor if it is acceptable. -/
def take (accepts : Token → Bool) (refusal : Token → ParseError) : Descent Token := do
  let t ← peek tokens
  if accepts t then advance tokens else throw (refusal t)

/-- The token spelled `text`. -/
def token (text : String) : Descent Token :=
  take tokens (·.is text) (·.expected (.token text))

/-- Run a routine one level deeper, and come back up whether it succeeds or not. -/
def nested {α : Type} (act : Descent α) : Descent α := do
  let w ← get
  if maxDepth ≤ w.here.depth then
    let t ← peek tokens
    throw (.tooDeep t.location)
  else
    go fun here => { here with depth := here.depth + 1 }
    let outcome ← observing act
    go fun here => { here with depth := here.depth - 1 }
    ofExcept outcome

/-! ## Literals and names -/

/-- An integer literal in the 64-bit range. -/
def integer : Descent Expr := do
  let t ← take tokens (·.kind = .integer) (·.expected .operand)
  match Decimal.readInt64? t.text with
  | some n => return .int t.location n
  | none => throw (.integerOutOfRange t.text t.location)

/-- A Boolean literal. -/
def boolean : Descent Expr := do
  let t ← take tokens (·.kind = .boolean) (·.expected .operand)
  return .bool t.location (t.text = "True" || t.text = "true")

/-- An identifier that is no keyword. -/
def name : Descent Token :=
  take tokens (fun t => t.kind = .identifier && !keywords.contains t.text) fun t =>
    if t.kind = .identifier then .reservedWord t.text t.location else t.expected .name

/-- What may follow a statement; the statements with this one behind them. -/
def separator (earlier : List Expr) (last : Expr) : Descent (List Expr) := do
  let t ← peek tokens
  if t.is ";" then
    let semicolon ← token tokens ";"
    let next ← peek tokens
    return if next.is "\x7d" then earlier ++ [last, .unit semicolon.location]
      else earlier ++ [last]
  else if t.is "\x7d" then return earlier ++ [last]
  else if t.kind = .endOfInput then throw (t.expected .statementEnd)
  else if last.isCompound then return earlier ++ [last]
  else throw (.missingSemicolon t.text t.location)

/-! ## Calls -/

end

/-- The routines that are called again from within: themselves, or in the rounds of a loop. -/
structure Routines where
  /-- An expression, one level deeper than the cursor. -/
  expression : Descent Expr
  /-- An operand with the operators in front of it. -/
  unary : Descent Expr
  /-- Operands joined by the operators of this level and of the tighter ones. -/
  binary : Nat → Descent Expr
  /-- The operators of one level with their right sides, behind an operand. -/
  joined : List String → Nat → Expr → Descent Expr
  /-- The arguments behind the first ones. -/
  furtherArguments : List Expr → Descent (List Expr)
  /-- The statements of a block behind the first ones. -/
  statements : List Expr → Descent (List Expr)

section

variable (tokens : List Token) (again : Routines)

/-! ### Calls, parentheses and conditionals -/

/-- The arguments behind a comma, as long as there is one. -/
def furtherArguments (args : List Expr) : Descent (List Expr) := do
  let t ← peek tokens
  if t.is "," then
    let _ ← token tokens ","
    let e ← again.expression
    again.furtherArguments (args ++ [e])
  else return args

/-- Arguments up to the closing parenthesis. -/
def arguments : Descent (List Expr) := do
  let t ← peek tokens
  if t.is ")" then return []
  else
    let first ← again.expression
    again.furtherArguments [first]

/-- A name, or a call of the function that it names. -/
def nameOrCall : Descent Expr := do
  let t ← name tokens
  let next ← peek tokens
  if next.is "(" then
    let _ ← token tokens "("
    let args ← arguments tokens again
    let _ ← take tokens (·.is ")") (·.expected .argumentEnd)
    return .call t.location (.name t.location t.text) args
  else return .name t.location t.text

/-- An expression in parentheses. -/
def parenthesized : Descent Expr := do
  let _ ← token tokens "("
  let e ← again.expression
  let _ ← token tokens ")"
  return e

/-- A conditional, with or without an else-branch. -/
def conditional : Descent Expr := do
  let opening ← token tokens "if"
  let condition ← again.expression
  let _ ← token tokens "then"
  let thenBranch ← again.expression
  let t ← peek tokens
  if t.is "else" then
    let _ ← token tokens "else"
    let elseBranch ← again.expression
    return .ifElse opening.location condition thenBranch elseBranch
  else return .ifThen opening.location condition thenBranch

/-! ### Blocks -/

/-- A declaration of a variable. -/
def declaration : Descent Expr := do
  let opening ← token tokens "var"
  let t ← name tokens
  let _ ← token tokens "="
  let value ← again.expression
  return .var opening.location t.text value

/-- One statement of a block. -/
def statement : Descent Expr := do
  let t ← peek tokens
  if t.is "var" then declaration tokens again else again.expression

/-- The statements up to the closing brace, behind some earlier ones. -/
def statements (earlier : List Expr) : Descent (List Expr) := do
  let t ← peek tokens
  if !t.is "\x7d" then
    let e ← statement tokens again
    let all ← separator tokens earlier e
    again.statements all
  else return earlier

/-- Statements in braces. -/
def block : Descent Expr := do
  let opening ← token tokens "\x7b"
  let all ← again.statements []
  let _ ← token tokens "\x7d"
  return .block opening.location all

/-! ### Operators -/

/-- An operand without operators. -/
def atom : Descent Expr := do
  let t ← peek tokens
  match t.kind with
  | .integer => integer tokens
  | .boolean => boolean tokens
  | .identifier =>
    if t.text = "if" then conditional tokens again
    else if t.text = "var" then throw (.misplacedDeclaration t.location)
    else nameOrCall tokens again
  | .punctuation =>
    if t.text = "(" then parenthesized tokens again
    else if t.text = "\x7b" then block tokens again
    else throw (t.expected .operand)
  | _ => throw (t.expected .operand)

/-- An operand with the operators in front of it. -/
def unary : Descent Expr := do
  let t ← peek tokens
  if t.isAny unaryOperators then
    let op ← take tokens (·.isAny unaryOperators) (·.expected .operand)
    let operand ← nested tokens again.unary
    return .unary op.location op.text operand
  else atom tokens again

/-- The operators of one level with their right sides, behind an operand. -/
def joined (operators : List String) (level : Nat) (left : Expr) : Descent Expr := do
  let t ← peek tokens
  if t.isAny operators then
    let op ← take tokens (·.isAny operators) (·.expected .operand)
    let right ← again.binary (level + 1)
    again.joined operators level (.binary op.location op.text left right)
  else return left

/-- Operands joined by the operators of this level and of the tighter ones. -/
def binary (level : Nat) : Descent Expr :=
  match binaryLevels[level]? with
  | none => again.unary
  | some operators => do
    let left ← again.binary (level + 1)
    again.joined operators level left

/-- An assignment, or an expression without one. -/
def assignment : Descent Expr := do
  let target ← again.binary 0
  let t ← peek tokens
  if t.is "=" then
    let op ← token tokens "="
    match target with
    | .name _ _ =>
      let value ← again.expression
      return .binary op.location op.text target value
    | _ => throw (.invalidAssignmentTarget op.location)
  else return target

/-- An expression, one level deeper than the cursor. -/
def expression : Descent Expr := nested tokens (assignment tokens again)

/-- A whole program. -/
def program : Descent (Option Expr) := do
  if tokens.isEmpty then return none
  else
    let first ← peek tokens
    if first.is "var" then throw (.misplacedDeclaration first.location)
    else
      let e ← expression tokens again
      let next ← peek tokens
      if next.kind = .endOfInput then return some e
      else throw (.trailingToken next.text next.location)

end

/-! ### Room for calls -/

/-- Nothing comes of this. -/
def never {α : Type} : Descent α := fun _ => none

/-- The routines with room for `n` calls one inside the other. -/
def routines (tokens : List Token) : Nat → Routines
  | 0 => ⟨never, never, fun _ => never, fun _ _ _ => never, fun _ => never, fun _ => never⟩
  | n + 1 =>
    { expression := expression tokens (routines tokens n)
      unary := unary tokens (routines tokens n)
      binary := binary (routines tokens n)
      joined := joined tokens (routines tokens n)
      furtherArguments := furtherArguments tokens (routines tokens n)
      statements := statements tokens (routines tokens n) }

/-- A routine ends: it comes to this whenever there is enough room. -/
def Ends {α : Type} (tokens : List Token) (act : Routines → Descent α) (w : Walk)
    (result : Except ParseError α × Walk) : Prop :=
  ∃ n, ∀ m, n ≤ m → (act (routines tokens m)).result? w = some result

/-! ## The routines that read an expression -/

/-- The routines that other ones call for an expression.  The level of `binary` may be one behind
    the tightest. -/
inductive Routine where
  | expression
  | binary (level : Nat)
  | unary
  | atom
  | block
  | statement

namespace Routine

/-- What the cursor does. -/
def act (tokens : List Token) (again : Routines) : Routine → Descent Expr
  | .expression => Descent.expression tokens again
  | .binary level => Descent.binary again level
  | .unary => Descent.unary tokens again
  | .atom => Descent.atom tokens again
  | .block => Descent.block tokens again
  | .statement => Descent.statement tokens again

/-- The rule of the grammar that it follows. -/
def rule (inner : Grammar.Nested) : Routine → Parser true Expr
  | .expression => inner.expression
  | .binary level => (binaryLevels.drop level).foldr Grammar.chain (Grammar.unary inner)
  | .unary => Grammar.unary inner
  | .atom => Grammar.atom inner
  | .block => Grammar.block inner
  | .statement => Grammar.statement inner

end Routine

end Descent

end ExprLang
