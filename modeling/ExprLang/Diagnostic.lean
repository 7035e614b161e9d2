import ExprLang.Text
import ExprLang.Token

/-!
# Diagnostics

What can be wrong with a source, and how it is told: each cause has a name, a message and, where
there is something to suggest, a tip.
-/

namespace ExprLang

inductive Cause
  /-- a token of one kind had to follow, and another one does -/
  | unexpected (expected found : Kind)
  /-- no expression starts with a token of this kind -/
  | noOperand (kind : Kind)
  /-- the literal denotes no number of the language -/
  | badNumber (literal : String)
  /-- so many levels of expressions are open already -/
  | tooDeep (limit : Nat)
  deriving DecidableEq, Inhabited

namespace Cause

def name : Cause → String
  | unexpected .. => "UnexpectedToken"
  | noOperand _ => "NoPrefixParseFn"
  | badNumber _ => "NumberParseError"
  | tooDeep _ => "NestingTooDeep"

def message : Cause → String
  | unexpected e f =>
    "expected next token to be " ++ e.name ++ ", got " ++ f.name ++ " instead"
  | noOperand k => "no prefix parse function for " ++ k.name ++ " found"
  | badNumber l => "could not parse " ++ Text.quoted l ++ " as integer"
  | tooDeep n => "expression nesting is too deep (maximum " ++ n.repr ++ " levels)"

/-- What to look at, if that says more than the name. -/
def tip? : Cause → Option String
  | unexpected e f => some ("Expected `" ++ e.name ++ "` here, found `" ++ f.name ++ "`")
  | noOperand .illegal => some "Unrecognised character"
  | noOperand k => some ("`" ++ k.name ++ "` cannot start an expression")
  | badNumber l => some ("Invalid number: `" ++ l ++ "`, is it above the integer limit?")
  | tooDeep _ => none

end Cause

/-- A cause and the place where it showed. -/
structure Diagnostic where
  cause : Cause
  position : Position
  deriving DecidableEq, Inhabited

namespace Diagnostic

def message (d : Diagnostic) : String := d.cause.message

def messages (ds : Array Diagnostic) : List String := ds.toList.map message

end Diagnostic

end ExprLang
