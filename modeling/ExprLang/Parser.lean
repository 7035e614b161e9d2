import ExprLang.Parser.Grammar

/-!
# The parser

The grammar with a bound on how deep expressions nest.  Every expression inside another one opens a
level, and where a level more would exceed the bound the expression fails.  `parse` reads a source:
it yields the statements that could be read, and the diagnostics in the order in which they arose.
-/

namespace ExprLang

/-- An expression that may open so many levels.  Where none is left, `limit` are open. -/
def expressionOn (limit : Nat) : (levels : Nat) → Power → Parse Expr
  | 0, _ => do Parse.failAt (← Walk.current) (.tooDeep limit)
  | levels + 1, power => Parse.nested (Grammar.expressionAbove (expressionOn limit levels) power)

/-- An expression that may open the levels up to `limit` which are not open yet. -/
def expressionWithin (limit : Nat) (power : Power) : Parse Expr := do
  expressionOn limit (limit - (← Walk.depth)) power

/-- The result of reading a source in which at most `limit` levels may be open. -/
def parseWithin (limit : Nat) (source : String) (file : Option String) :
    Program × Array Diagnostic :=
  let r := (Grammar.program (expressionWithin limit)).run (Session.ofSource source file)
  (r.1, r.2.errors)

def maxLevels : Nat := 128

/-- An expression whose operators exceed `power`. -/
def expression (power : Power) : Parse Expr := expressionWithin maxLevels power

/-- The result of reading a source: its program and what is wrong with it.  Where something is
wrong, the program may lack statements. -/
def parse (source : String) (file : Option String) : Program × Array Diagnostic :=
  parseWithin maxLevels source file

end ExprLang
