import ExprLang.Text
import ExprLang.Token
import ExprLang.Token.Lexeme

/-!
# The scanner

A scanner is a place in a source.  `Scanner.next` skips blanks, reads one token and moves behind it;
at the end of the source it reads the end token again and again.  `Scanner.tokens` reads all tokens
up to the first end token.
-/

namespace ExprLang

/-- A place in the source called `file`: `rest` is still to be read, and starts at byte `offset`. -/
structure Scanner where
  file : String
  offset : Nat
  rest : List Char
  deriving Inhabited

namespace Scanner

def ofSource (source : String) (file : Option String) : Scanner :=
  ⟨file.getD defaultFile, 0, source.toList⟩

/-- Whether nothing is left to read, not even blanks. -/
def atEnd (s : Scanner) : Bool := s.rest.isEmpty

def skip (s : Scanner) (n : Nat) : Scanner :=
  { s with offset := s.offset + Text.byteWidth (s.rest.take n), rest := s.rest.drop n }

def skipBlanks (s : Scanner) : Scanner := s.skip (s.rest.takeWhile Lexeme.isBlank).length

/-- The token at this place whose text is the next `lexeme.length` characters. -/
def token (s : Scanner) (kind : Kind) (lexeme : List Char) : Token :=
  ⟨kind, String.ofList lexeme, Span.between s.offset (s.offset + Text.byteWidth lexeme) s.file⟩

/-- The token that starts right here, and the place behind it. -/
def read (s : Scanner) : Token × Scanner :=
  match s.rest with
  | [] => (s.token .eof [], s)
  | c :: cs =>
    let lexeme := Lexeme.leading c cs
    (s.token lexeme.1 lexeme.2, s.skip lexeme.2.length)

def next (s : Scanner) : Token × Scanner := s.skipBlanks.read

/-! ### Reading uses up the source -/

theorem length_rest_skip (s : Scanner) (n : Nat) : (s.skip n).rest.length = s.rest.length - n := by
  simp [skip]

theorem length_rest_skipBlanks_le (s : Scanner) : s.skipBlanks.rest.length ≤ s.rest.length := by
  simp [skipBlanks, length_rest_skip]

theorem length_rest_read_le (s : Scanner) : s.read.2.rest.length ≤ s.rest.length := by
  unfold read
  split
  · exact Nat.le_refl _
  · simp [length_rest_skip]

/-- A token that is not the end token uses up characters. -/
theorem length_rest_read_lt {s : Scanner} (h : s.read.1.kind ≠ .eof) :
    s.read.2.rest.length < s.rest.length := by
  unfold read at h ⊢
  split at h
  · exact absurd rfl h
  · rename_i c cs hs
    have := List.length_pos_iff.2 (Lexeme.leading_ne_nil c cs)
    simp only [hs, length_rest_skip, List.length_cons]
    omega

theorem length_rest_next_le (s : Scanner) : s.next.2.rest.length ≤ s.rest.length :=
  Nat.le_trans (length_rest_read_le _) (length_rest_skipBlanks_le s)

theorem length_rest_next_lt {s : Scanner} (h : s.next.1.kind ≠ .eof) :
    s.next.2.rest.length < s.rest.length :=
  Nat.lt_of_lt_of_le (length_rest_read_lt h) (length_rest_skipBlanks_le s)

/-! ### All tokens of a source -/

/-- The tokens `before`, and behind them those that are left to read up to the first end token. -/
def tokensAfter (before : Array Token) (s : Scanner) : Array Token :=
  if s.next.1.kind = .eof then before.push s.next.1
  else tokensAfter (before.push s.next.1) s.next.2
termination_by s.rest.length
decreasing_by exact length_rest_next_lt ‹_›

/-- The tokens that are left to read, up to the first end token. -/
def tokens (s : Scanner) : List Token := (tokensAfter #[] s).toList

theorem tokensAfter_eq (before : Array Token) (s : Scanner) :
    tokensAfter before s = before ++ tokensAfter #[] s := by
  induction h : s.rest.length using Nat.strongRecOn generalizing before s with
  | ind n ih =>
    subst h
    rw [tokensAfter, tokensAfter.eq_def #[]]
    split
    · simp
    · rename_i hk
      have hlt := length_rest_next_lt hk
      rw [ih _ hlt _ _ rfl, ih _ hlt (#[].push _) _ rfl]
      simp

theorem tokens_eq (s : Scanner) :
    s.tokens = if s.next.1.kind = .eof then [s.next.1] else s.next.1 :: s.next.2.tokens := by
  rw [tokens, tokensAfter]
  split
  · simp
  · rw [tokensAfter_eq]
    simp [tokens]

end Scanner

/-- The tokens of a source, the end token included. -/
def tokenize (source : String) (file : Option String) : List Token :=
  (Scanner.ofSource source file).tokens

end ExprLang
