import ExprLang.Parser.Cursor

/-!
# The tokens ahead

What a scanner and a cursor have before them, as a list of tokens without the end token:

* `Scanner.upcoming`: the tokens that a scanner still reads;
* `Cursor.On`: the tokens from the current one on, if behind them there is nothing but the end
  token.

`Cursor.on_ofScanner` joins the two: a cursor that is set on a scanner stands on all its tokens.
-/

namespace ExprLang

/-- The kind of the first of some tokens, and that of the end token if there is none. -/
def headKind : List Token → Kind
  | [] => .eof
  | t :: _ => t.kind

@[simp] theorem headKind_nil : headKind [] = .eof := rfl

@[simp] theorem headKind_cons (t : Token) (ts : List Token) : headKind (t :: ts) = t.kind := rfl

/-! ### Scanners -/

namespace Scanner

/-- The tokens that are left to read, without the end token. -/
def upcoming (s : Scanner) : List Token := s.tokens.dropLast

theorem tokens_ne_nil (s : Scanner) : s.tokens ≠ [] := by
  rw [tokens_eq]
  split <;> simp

theorem upcoming_eq (s : Scanner) :
    s.upcoming = if s.next.1.kind = .eof then [] else s.next.1 :: s.next.2.upcoming := by
  unfold upcoming
  rw [tokens_eq]
  split
  · rfl
  · exact List.dropLast_cons_of_ne_nil (tokens_ne_nil _)

theorem rest_skipBlanks_of_eof {s : Scanner} (h : s.next.1.kind = .eof) :
    s.skipBlanks.rest = [] := by
  unfold next read at h
  split at h
  · assumption
  · exact absurd h (Lexeme.kind_leading_ne_eof _ _)

theorem skipBlanks_of_nil {s : Scanner} (h : s.rest = []) : s.skipBlanks = s := by
  obtain ⟨file, offset, rest⟩ := s
  subst h
  rfl

/-- Behind the end token comes the same end token. -/
theorem next_next_of_eof {s : Scanner} (h : s.next.1.kind = .eof) : s.next.2.next = s.next := by
  have hr := rest_skipBlanks_of_eof h
  have hn : s.next.2 = s.skipBlanks := by
    unfold next read
    rw [hr]
  rw [hn]
  unfold next
  rw [skipBlanks_of_nil hr]

/-- The tokens of a source are those before the end token, and the end token. -/
theorem filter_tokens (s : Scanner) : s.tokens.filter (·.kind ≠ .eof) = s.upcoming := by
  induction hn : s.rest.length using Nat.strongRecOn generalizing s with
  | ind n ih =>
    subst hn
    rw [upcoming_eq, tokens_eq]
    split
    · rename_i hk
      simp [hk]
    · rename_i hk
      have := ih _ (length_rest_next_lt hk) s.next.2 rfl
      simp [hk, ← this]

end Scanner

/-! ### Cursors -/

namespace Cursor

/-- The cursor stands on the first of these tokens; behind them comes the end token, and no step
leads further. -/
def On (c : Cursor) : List Token → Prop
  | [] => c.current.kind = .eof ∧ c.advance = c
  | t :: ts => c.current = t ∧ t.kind ≠ .eof ∧ c.advance.On ts

variable {c : Cursor} {t : Token} {ts us : List Token}

theorem On.current_eq (h : c.On (t :: ts)) : c.current = t := h.1

theorem On.kind_ne_eof (h : c.On (t :: ts)) : t.kind ≠ .eof := h.2.1

theorem On.advance (h : c.On (t :: ts)) : c.advance.On ts := h.2.2

theorem On.advance_tail (h : c.On ts) : c.advance.On ts.tail := by
  cases ts with
  | nil => exact h.2.symm ▸ h
  | cons t ts => exact h.advance

theorem On.kind_current (h : c.On ts) : c.current.kind = headKind ts := by
  cases ts with
  | nil => exact h.1
  | cons t ts => exact congrArg Token.kind h.current_eq

theorem On.kind_peek (h : c.On ts) : c.peek.kind = headKind ts.tail := h.advance_tail.kind_current

theorem On.kind_peek_of_advance (h : c.advance.On ts) : c.peek.kind = headKind ts := h.kind_current

theorem On.eq_cons (h : c.On ts) (hk : c.current.kind ≠ .eof) : ∃ us, ts = c.current :: us := by
  cases ts with
  | nil => exact absurd h.1 hk
  | cons t us => exact ⟨us, by rw [h.current_eq]⟩

/-- A cursor stands on one list of tokens only. -/
theorem On.unique (h : c.On ts) (h' : c.On us) : ts = us := by
  induction ts generalizing c us with
  | nil =>
    cases us with
    | nil => rfl
    | cons u us => exact absurd (h'.current_eq ▸ h.1) h'.kind_ne_eof
  | cons t ts ih =>
    cases us with
    | nil => exact absurd (h.current_eq ▸ h'.1) h.kind_ne_eof
    | cons u us => rw [← h.current_eq, ← h'.current_eq, ih h.advance h'.advance]

theorem On.after (h : c.On ts) (n : Nat) : (c.after n).On (ts.drop n) := by
  induction n with
  | zero => exact h
  | succ n ih =>
    rw [after_succ, ← List.tail_drop]
    exact ih.advance_tail

/-- Steps lead to the end of the tokens. -/
theorem Ahead.on {d : Cursor} (h : c.Ahead d) (hc : c.On ts) : ∃ us, us <:+ ts ∧ d.On us := by
  obtain ⟨n, rfl⟩ := h
  exact ⟨ts.drop n, List.drop_suffix _ _, hc.after n⟩

/-- A cursor that is set on a scanner stands on the first token that is left to read. -/
theorem on_ofScanner (s : Scanner) : (ofScanner s).On s.upcoming := by
  induction hn : s.rest.length using Nat.strongRecOn generalizing s with
  | ind n ih =>
    subst hn
    rw [Scanner.upcoming_eq]
    split
    · rename_i hk
      have hs := Scanner.next_next_of_eof hk
      refine ⟨hk, ?_⟩
      simp only [advance, ofScanner, hs]
    · rename_i hk
      exact ⟨rfl, hk, ih _ (Scanner.length_rest_next_lt hk) _ rfl⟩

end Cursor

end ExprLang
