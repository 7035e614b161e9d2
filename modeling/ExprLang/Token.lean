import ExprLang.Token.Kind

/-!
# Tokens

A token is a kind, the text it was read from, and where that text stands.  Where it stands is said
in bytes.  Offsets fill 32 bits: one that would not fit is replaced by the largest that does, so
that positions never wrap around.
-/

namespace ExprLang

/-! ### Positions and spans -/

/-- The largest byte offset that a position holds. -/
def maxOffset : Nat := 4294967295

/-- The name of a source that was given none. -/
def defaultFile : String := "shell"

/-- A byte offset into the source called `file`. -/
structure Position where
  offset : Nat
  file : String
  deriving DecidableEq, Inhabited

/-- The bytes `start ..< stop` of the source called `file`. -/
structure Span where
  start : Nat
  stop : Nat
  file : String
  deriving DecidableEq, Inhabited

namespace Span

/-- The span between two byte offsets; each of them saturates at `maxOffset`. -/
def between (start stop : Nat) (file : String) : Span :=
  ⟨min start maxOffset, min stop maxOffset, file⟩

def first (s : Span) : Position := ⟨s.start, s.file⟩

/-- Where a span stops: the position of the first byte behind it. -/
def last (s : Span) : Position := ⟨s.stop, s.file⟩

@[simp] theorem file_between (start stop : Nat) (file : String) :
    (between start stop file).file = file := rfl

theorem start_between {start : Nat} (h : start ≤ maxOffset) (stop : Nat) (file : String) :
    (between start stop file).start = start := Nat.min_eq_left h

theorem stop_between {stop : Nat} (h : stop ≤ maxOffset) (start : Nat) (file : String) :
    (between start stop file).stop = stop := Nat.min_eq_left h

end Span

/-! ### Tokens -/

/-- A token; `literal` is its text in the source. -/
structure Token where
  kind : Kind
  literal : String
  span : Span
  deriving DecidableEq, Inhabited

namespace Token

def position (t : Token) : Position := t.span.first

def is (t : Token) (k : Kind) : Bool := t.kind == k

/-- A token in full: kind and literal. -/
def text (t : Token) : String :=
  "Token \x7b\nkind: " ++ t.kind.name ++ ",\nliteral: " ++ t.literal ++ "\x7d"

/-- A token in brief: its kind and, where the kind leaves it open, its literal. -/
def brief (t : Token) : String :=
  match t.kind with
  | .ident | .int | .illegal => t.kind.name ++ " (" ++ t.literal ++ ")"
  | k => k.name ++ " ()"

end Token

end ExprLang
