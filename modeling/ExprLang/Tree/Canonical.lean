import ExprLang.Tree

/-!
# Canonical text

The one spelling of a tree: every operation stands between parentheses, a `let` or `return` ends
with a semicolon, and statements follow each other without a blank.  Numbers, truth values and the
words `let` and `return` are spelt as their tokens are.
-/

namespace ExprLang

mutual

def Expr.text : Expr → String
  | .ident x => x.name
  | .number t _ => t.literal
  | .boolean t _ => t.literal
  | .unary _ op r => "(" ++ op ++ r.text ++ ")"
  | .binary _ l op r => "(" ++ l.text ++ " " ++ op ++ " " ++ r.text ++ ")"
  | .conditional _ c t none => "if" ++ c.text ++ " " ++ t.text
  | .conditional _ c t (some e) => "if" ++ c.text ++ " " ++ t.text ++ "else " ++ e.text

def Stmt.text : Stmt → String
  | .binding t n v => t.literal ++ " " ++ n.name ++ " = " ++ v.text ++ ";"
  | .result t v => t.literal ++ " " ++ v.text ++ ";"
  | .expression _ v => v.text
  | .block b => b.text

/-- The canonical text of a block; its braces are not written. -/
def Block.text : Block → String
  | .mk _ ss => Stmt.textAfter "" ss

/-- The text `before`, and behind it the canonical texts of statements. -/
def Stmt.textAfter (before : String) : List Stmt → String
  | [] => before
  | s :: ss => Stmt.textAfter (before ++ s.text) ss

end

theorem Stmt.textAfter_eq (before : String) (ss : List Stmt) :
    Stmt.textAfter before ss = before ++ String.join (ss.map Stmt.text) := by
  induction ss generalizing before with
  | nil => simp [Stmt.textAfter]
  | cons s ss ih => simp [Stmt.textAfter, ih, String.append_assoc]

def Program.text (p : Program) : String := String.join (p.statements.map Stmt.text)

end ExprLang
