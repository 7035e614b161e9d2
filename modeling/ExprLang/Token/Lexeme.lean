import ExprLang.Token.Kind

/-!
# Lexemes

Which characters begin a token, and how far the token goes.  `leading c cs` is the kind and the text
of the token that starts the text `c :: cs`: a run of letters or of digits is taken as long as it
goes, `==` and `!=` go before `=` and `!`, and every other character stands for itself.  Which
number a run of digits denotes is said by `Decimal.ofLiteral?`.
-/

namespace ExprLang.Lexeme

/-- The characters that may stand between tokens. -/
def isBlank (c : Char) : Bool := c == ' ' || c == '\t' || c == '\n' || c == '\r'

def isLetter (c : Char) : Bool := c.isAlpha || c == '_'

/-- The kind and the text of the token that starts the text `c :: cs`. -/
def leading (c : Char) (cs : List Char) : Kind × List Char :=
  if isLetter c then
    let word := c :: cs.takeWhile isLetter
    (Kind.ofWord (String.ofList word), word)
  else if c.isDigit then
    (.int, c :: cs.takeWhile Char.isDigit)
  else
    match c, cs with
    | '=', '=' :: _ => (.equal, ['=', '='])
    | '!', '=' :: _ => (.notEqual, ['!', '='])
    | c, _ => ((Kind.ofMark? c).getD .illegal, [c])

/-- A token has at least one character. -/
theorem leading_ne_nil (c : Char) (cs : List Char) : (leading c cs).2 ≠ [] := by
  unfold leading
  split
  · simp
  · split
    · simp
    · split <;> simp

theorem kind_leading_ne_eof (c : Char) (cs : List Char) : (leading c cs).1 ≠ .eof := by
  unfold leading
  split
  · exact Kind.ofWord_ne_eof _
  · split
    · simp
    · split
      · simp
      · simp
      · exact Kind.getD_ofMark?_ne_eof _

end ExprLang.Lexeme

/-! ### Numbers -/

namespace ExprLang.Decimal

/-- The value of a run of digits, the most significant first. -/
def value (digits : List Char) : Nat :=
  digits.foldl (fun n d => 10 * n + (d.toNat - '0'.toNat)) 0

/-- The numbers of the language are smaller than this: they fit 63 bits. -/
def limit : Nat := 9223372036854775808

/-- The number that a literal denotes: it has to be a run of digits with a value below `limit`. -/
def ofLiteral? (literal : String) : Option Nat :=
  let digits := literal.toList
  if !digits.isEmpty && digits.all Char.isDigit && value digits < limit then some (value digits)
  else none

theorem ofLiteral?_eq_some {literal : String} {n : Nat} :
    ofLiteral? literal = some n ↔
      literal.toList ≠ [] ∧ (∀ c ∈ literal.toList, c.isDigit) ∧ value literal.toList = n ∧
        n < limit := by
  unfold ofLiteral?
  simp only [Bool.and_eq_true, Bool.not_eq_true', List.isEmpty_eq_false_iff, List.all_eq_true,
    decide_eq_true_eq]
  split
  · rename_i h
    simp only [Option.some.injEq]
    constructor
    · rintro rfl
      exact ⟨h.1.1, h.1.2, rfl, h.2⟩
    · exact fun h => h.2.2.1
  · rename_i h
    simp only [reduceCtorEq, false_iff]
    rintro ⟨h1, h2, rfl, h3⟩
    exact h ⟨⟨h1, h2⟩, h3⟩

end ExprLang.Decimal
