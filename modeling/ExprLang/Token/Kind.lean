/-!
# Kinds of tokens

The kinds, their names in diagnostics, and the two tables that assign a kind to a text: the
punctuation marks of one character and the reserved words.
-/

namespace ExprLang

/-- What a token is, apart from its text. -/
inductive Kind
  | illegal | eof
  | ident | int
  | assign | plus | minus | bang | star | slash
  | less | greater | equal | notEqual
  | comma | semicolon
  | lparen | rparen | lbrace | rbrace
  | fnWord | letWord | trueWord | falseWord | ifWord | elseWord | returnWord
  deriving DecidableEq, Inhabited

namespace Kind

def name : Kind → String
  | illegal => "ILLEGAL" | eof => "EOF"
  | ident => "IDENT" | int => "INT"
  | assign => "=" | plus => "+" | minus => "-" | bang => "!" | star => "*" | slash => "/"
  | less => "<" | greater => ">" | equal => "==" | notEqual => "!="
  | comma => "," | semicolon => ";"
  | lparen => "(" | rparen => ")" | lbrace => "\x7b" | rbrace => "\x7d"
  | fnWord => "FUNCTION" | letWord => "LET" | trueWord => "TRUE" | falseWord => "FALSE"
  | ifWord => "IF" | elseWord => "ELSE" | returnWord => "RETURN"

def all : List Kind :=
  [illegal, eof, ident, int, assign, plus, minus, bang, star, slash, less, greater, equal, notEqual,
    comma, semicolon, lparen, rparen, lbrace, rbrace, fnWord, letWord, trueWord, falseWord, ifWord,
    elseWord, returnWord]

/-- The kind of a punctuation mark of one character. -/
def ofMark? : Char → Option Kind
  | '=' => some assign | '+' => some plus | '-' => some minus | '!' => some bang
  | '*' => some star | '/' => some slash
  | '<' => some less | '>' => some greater
  | ',' => some comma | ';' => some semicolon
  | '(' => some lparen | ')' => some rparen | '{' => some lbrace | '}' => some rbrace
  | _ => none

def reserved : List (String × Kind) :=
  [("fn", fnWord), ("let", letWord), ("true", trueWord), ("false", falseWord), ("if", ifWord),
    ("else", elseWord), ("return", returnWord)]

/-- The kind of a word: its own if the word is reserved, `ident` otherwise. -/
def ofWord (word : String) : Kind := (reserved.lookup word).getD ident

/-! ### No text is read as the end of the source -/

theorem ofWord_ne_eof (word : String) : ofWord word ≠ eof := by
  unfold ofWord reserved
  simp only [List.lookup_cons, List.lookup_nil]
  repeat' split
  all_goals simp

theorem getD_ofMark?_ne_eof (c : Char) : (ofMark? c).getD illegal ≠ eof := by
  unfold ofMark?
  split <;> simp

end Kind

end ExprLang
