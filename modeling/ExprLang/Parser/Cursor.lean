import ExprLang.Scanner

/-!
# The cursor

A parser sees two tokens of the source, the current one and the one behind it; the rest is still to
be scanned.  `c.after n` is where `n` steps lead from `c`, and `c.Ahead d` says that some number of
steps leads from `c` to `d`.  As long as one of the two tokens is not the end token, a step makes
`Cursor.size` smaller.
-/

namespace ExprLang

/-- A place between the tokens of a source: the current token, the one behind it, and the scanner
for all others. -/
structure Cursor where
  current : Token
  peek : Token
  scanner : Scanner
  deriving Inhabited

namespace Cursor

/-- The cursor on the next token of a scanner. -/
def ofScanner (s : Scanner) : Cursor :=
  let first := s.next
  let second := first.2.next
  ⟨first.1, second.1, second.2⟩

/-- One step: the token behind the current one becomes the current one. -/
def advance (c : Cursor) : Cursor :=
  let r := c.scanner.next
  ⟨c.peek, r.1, r.2⟩

@[simp] theorem current_advance (c : Cursor) : c.advance.current = c.peek := rfl

def after (c : Cursor) : Nat → Cursor
  | 0 => c
  | n + 1 => (c.after n).advance

@[simp] theorem after_zero (c : Cursor) : c.after 0 = c := rfl

theorem after_succ (c : Cursor) (n : Nat) : c.after (n + 1) = (c.after n).advance := rfl

theorem after_add (c : Cursor) (m n : Nat) : c.after (m + n) = (c.after m).after n := by
  induction n with
  | zero => rfl
  | succ n ih => rw [← Nat.add_assoc, after_succ, ih, after_succ]

/-- Some number of steps leads from `c` to `d`. -/
def Ahead (c d : Cursor) : Prop := ∃ n, d = c.after n

namespace Ahead

theorem refl (c : Cursor) : c.Ahead c := ⟨0, rfl⟩

theorem advance (c : Cursor) : c.Ahead c.advance := ⟨1, rfl⟩

theorem trans {c d e : Cursor} : c.Ahead d → d.Ahead e → c.Ahead e
  | ⟨m, hm⟩, ⟨n, hn⟩ => ⟨m + n, by rw [after_add, ← hm, hn]⟩

end Ahead

/-! ### Steps use up the source -/

/-- What is left of the source: its characters weigh more than the two tokens that are seen, and the
end token weighs nothing. -/
def size (c : Cursor) : Nat :=
  (if c.current.kind = .eof then 0 else 1) + (if c.peek.kind = .eof then 0 else 2) +
    3 * c.scanner.rest.length

theorem size_advance_le (c : Cursor) : c.advance.size ≤ c.size := by
  have hle := c.scanner.length_rest_next_le
  have hlt := @Scanner.length_rest_next_lt c.scanner
  simp only [size, advance]
  grind

theorem size_advance_lt {c : Cursor} (h : c.current.kind ≠ .eof ∨ c.peek.kind ≠ .eof) :
    c.advance.size < c.size := by
  have hle := c.scanner.length_rest_next_le
  have hlt := @Scanner.length_rest_next_lt c.scanner
  simp only [size, advance]
  grind

theorem Ahead.size_le {c d : Cursor} : c.Ahead d → d.size ≤ c.size := by
  rintro ⟨n, rfl⟩
  induction n with
  | zero => exact Nat.le_refl _
  | succ n ih => exact Nat.le_trans (size_advance_le _) ih

/-- From a token on, at least one step leads to less. -/
theorem Ahead.size_advance_lt {c d : Cursor} (h : c.current.kind ≠ .eof) :
    c.Ahead d → d.advance.size < c.size := by
  rintro ⟨n, rfl⟩
  rw [← after_succ, Nat.add_comm, after_add]
  exact Nat.lt_of_le_of_lt (Ahead.size_le ⟨n, rfl⟩) (Cursor.size_advance_lt (.inl h))

end Cursor

end ExprLang
