import ExprLang.Token

/-!
# Syntax trees

Every node keeps the token it was read from.  Parentheses leave no node: they only shape the tree.
-/

namespace ExprLang

structure Ident where
  token : Token
  name : String
  deriving DecidableEq, Inhabited

mutual

inductive Expr
  | ident (name : Ident)
  | number (token : Token) (value : Int)
  | boolean (token : Token) (value : Bool)
  | unary (token : Token) (operator : String) (right : Expr)
  | binary (token : Token) (left : Expr) (operator : String) (right : Expr)
  | conditional (token : Token) (condition : Expr) (consequence : Block)
      (alternative : Option Block)

inductive Stmt
  | binding (token : Token) (name : Ident) (value : Expr)
  | result (token : Token) (value : Expr)
  | expression (token : Token) (value : Expr)
  | block (body : Block)

/-- Statements between braces; the token is the opening brace. -/
inductive Block
  | mk (token : Token) (body : List Stmt)

end

structure Program where
  statements : List Stmt

/-- The token that an expression was read from; of a binary operation, its operator. -/
def Expr.token : Expr → Token
  | ident x => x.token
  | number t _ => t
  | boolean t _ => t
  | unary t _ _ => t
  | binary t _ _ _ => t
  | conditional t _ _ _ => t

def Block.token : Block → Token
  | mk t _ => t

def Block.body : Block → List Stmt
  | mk _ ss => ss

def Stmt.token : Stmt → Token
  | binding t _ _ => t
  | result t _ => t
  | expression t _ => t
  | block b => b.token

/-- The literal of a program's first token, empty if there is no statement. -/
def Program.literal (p : Program) : String :=
  match p.statements with
  | [] => ""
  | s :: _ => s.token.literal

end ExprLang
