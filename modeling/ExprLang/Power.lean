import ExprLang.Token.Kind

/-!
# Binding powers

How tightly the operators bind.  The table of binary operators is `Kind.operator?`; a kind that it
does not list binds not at all.
-/

namespace ExprLang

/-- How tightly an operator holds its operands, loosest first. -/
inductive Power
  | lowest | equality | comparison | sum | product | unary | call
  deriving DecidableEq, Inhabited

namespace Power

def all : List Power := [lowest, equality, comparison, sum, product, unary, call]

def rank : Power → Nat
  | lowest => 0 | equality => 1 | comparison => 2 | sum => 3 | product => 4 | unary => 5 | call => 6

instance : LT Power := ⟨fun a b => a.rank < b.rank⟩

instance (a b : Power) : Decidable (a < b) := inferInstanceAs (Decidable (a.rank < b.rank))

instance : LE Power := ⟨fun a b => a.rank ≤ b.rank⟩

theorem not_lt {a b : Power} : ¬ a < b ↔ b ≤ a := Nat.not_lt

theorem le_refl (a : Power) : a ≤ a := Nat.le_refl a.rank

theorem le_trans {a b c : Power} : a ≤ b → b ≤ c → a ≤ c := Nat.le_trans

theorem not_lt_lowest (a : Power) : ¬ a < lowest := Nat.not_lt_zero _

end Power

namespace Kind

/-- The binary operators, each with its power. -/
def operator? : Kind → Option Power
  | equal | notEqual => some .equality
  | less | greater => some .comparison
  | plus | minus => some .sum
  | star | slash => some .product
  | _ => none

/-- The power of a kind between two operands. -/
def power (k : Kind) : Power := k.operator?.getD .lowest

/-- What binds at all is a binary operator. -/
theorem isSome_operator?_of_lt_power {a : Power} {k : Kind} (h : a < k.power) :
    k.operator?.isSome := by
  unfold power at h
  cases hk : k.operator? with
  | none => exact absurd h (by rw [hk]; exact a.not_lt_lowest)
  | some b => rfl

/-- The end of the source binds nothing. -/
theorem ne_eof_of_lt_power {a : Power} {k : Kind} (h : a < k.power) : k ≠ .eof := by
  rintro rfl
  exact a.not_lt_lowest h

end Kind

end ExprLang
