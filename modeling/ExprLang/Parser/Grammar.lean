import ExprLang.Parser.Parse
import ExprLang.Power
import ExprLang.Tree

/-!
# The grammar

One parse for each form of expression and statement.  Each begins on the first token of its form and
ends on the last one.  The expressions inside a form are read by `expr`, which gets the power that
an operator must exceed to belong to them.
-/

namespace ExprLang.Grammar

open Parse Walk

variable (expr : Power → Parse Expr)

/-! ### Expressions -/

def ident : Parse Expr := do
  let t ← current
  return .ident ⟨t, t.literal⟩

/-- A number; its literal has to denote one. -/
def number : Parse Expr := do
  let t ← current
  match Decimal.ofLiteral? t.literal with
  | some n => return .number t n
  | none => failAt t (.badNumber t.literal)

/-- A truth value: true if the word is `true`. -/
def boolean : Parse Expr := do
  let t ← current
  return .boolean t (t.is .trueWord)

/-- A unary operation, from its operator on. -/
def unary : Parse Expr := do
  let operator ← current
  advance
  let right ← expr .unary
  return .unary operator operator.literal right

/-- A binary operation, from its operator on; `left` stands before it. -/
def binary (left : Expr) : Parse Expr := do
  let operator ← current
  advance
  let right ← expr operator.kind.power
  return .binary operator left operator.literal right

def grouped : Parse Expr := do
  advance
  let inner ← expr .lowest
  expect .rparen
  return inner

/-! ### Statements -/

def skipSemicolon : Walk Unit := do
  if (← peek).kind = .semicolon then advance

/-- `let name = value`. -/
def binding : Parse Stmt := do
  let word ← current
  expect .ident
  let name ← current
  expect .assign
  advance
  let value ← expr .lowest
  skipSemicolon
  return .binding word ⟨name, name.literal⟩ value

/-- `return value`. -/
def result : Parse Stmt := do
  let word ← current
  advance
  let value ← expr .lowest
  skipSemicolon
  return .result word value

def bareExpression : Parse Stmt := do
  let first ← current
  let value ← expr .lowest
  skipSemicolon
  return .expression first value

/-- The statements that a reserved word introduces. -/
def introduced? : Kind → Option (Parse Stmt)
  | .letWord => some (binding expr)
  | .returnWord => some (result expr)
  | _ => none

def statement : Parse Stmt := do
  (introduced? expr (← current).kind).getD (bareExpression expr)

/-- Reads a statement and steps behind it, unless the current token closes the list. -/
def nextStatement? (closes : Kind → Bool) (before : List Stmt) (s : Session) :
    Option (Walk (List Stmt)) :=
  if closes s.cursor.current.kind then none
  else some do
    let stmt? ← recorded (statement expr)
    advance
    return stmt?.toList ++ before

theorem usesUp_nextStatement? {closes : Kind → Bool} (h : closes .eof) :
    UsesUp (nextStatement? expr closes) := by
  intro before s x hx
  unfold nextStatement? at hx
  split at hx
  · exact absurd hx nofun
  · rename_i hs
    cases hx
    refine Cursor.Ahead.size_advance_lt ?_ ((recorded (statement expr)).ahead s)
    exact fun he => hs (he ▸ h)

/-- Statements up to a token that closes the list.  A statement that fails is reported and left out,
and the next one is looked for behind the token where the failure left off. -/
def statements (closes : Kind → Bool) (h : closes .eof) : Walk (List Stmt) := do
  let backwards ← loop (nextStatement? expr closes) (usesUp_nextStatement? expr h) []
  return backwards.reverse

/-- What closes a block: its brace, and the end of the source where that is missing. -/
def closesBlock (k : Kind) : Bool := k == .rbrace || k == .eof

/-- A block, from its brace on. -/
def block : Walk Block := do
  let brace ← current
  advance
  let body ← statements expr closesBlock rfl
  return .mk brace body

def program : Walk Program := do
  let body ← statements expr (· == .eof) rfl
  return ⟨body⟩

/-! ### Operands and operations -/

/-- `if (condition) { … } else { … }`; the branch after `else` may be missing. -/
def conditional : Parse Expr := do
  let word ← current
  expect .lparen
  advance
  let condition ← expr .lowest
  expect .rparen
  expect .lbrace
  let consequence ← block expr
  if (← peek).kind = .elseWord then
    advance
    expect .lbrace
    let alternative ← block expr
    return .conditional word condition consequence (some alternative)
  else
    return .conditional word condition consequence none

/-- The expressions that a token of a kind starts. -/
def operand? : Kind → Option (Parse Expr)
  | .ident => some ident
  | .int => some number
  | .trueWord | .falseWord => some boolean
  | .bang | .minus => some (unary expr)
  | .lparen => some (grouped expr)
  | .ifWord => some (conditional expr)
  | _ => none

/-- What stands before the first binary operator of an expression. -/
def operand : Parse Expr := do
  let t ← current
  (operand? expr t.kind).getD (failAt t (.noOperand t.kind))

/-- Reads the operation that `left` is the left side of, if its operator exceeds `power`. -/
def nextOperation? (power : Power) : Except Diagnostic Expr → Session →
    Option (Walk (Except Diagnostic Expr))
  | .error _, _ => none
  | .ok left, s =>
    if power < s.cursor.peek.kind.power then
      some do
        advance
        (binary expr left).attempt
    else none

theorem usesUp_nextOperation? (power : Power) : UsesUp (nextOperation? expr power) := by
  intro r s x hx
  unfold nextOperation? at hx
  split at hx
  · exact absurd hx nofun
  · split at hx
    · rename_i left hp
      cases hx
      have hlt := Cursor.size_advance_lt (.inr (Kind.ne_eof_of_lt_power hp))
      exact Nat.lt_of_le_of_lt (((binary expr left).attempt.ahead _).size_le) hlt
    · exact absurd hx nofun

/-- The operations that follow `left` with operators that exceed `power`, grouped to the left. -/
def operations (power : Power) (left : Expr) : Parse Expr :=
  ⟨loop (nextOperation? expr power) (usesUp_nextOperation? expr power) (.ok left)⟩

/-- An expression: an operand and the operations that follow it with operators that exceed
`power`. -/
def expressionAbove (power : Power) : Parse Expr := do operations expr power (← operand expr)

end ExprLang.Grammar
