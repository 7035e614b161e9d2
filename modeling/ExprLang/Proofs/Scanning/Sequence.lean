import ExprLang.Proofs.Parsing.Stream

/-!
# A scanner as a sequence of tokens

`s.after n` is where a scanner is when `n` more tokens have been read from it.  What it reads there
is the `n`-th of its tokens, and behind them the end token again and again (`Scanner.next_after`).
-/

namespace ExprLang.Scanner

variable {s : Scanner} {n : Nat}

def after (s : Scanner) : Nat → Scanner
  | 0 => s
  | n + 1 => s.next.2.after n

@[simp] theorem after_zero (s : Scanner) : s.after 0 = s := rfl

theorem after_succ (s : Scanner) (n : Nat) : s.after (n + 1) = s.next.2.after n := rfl

theorem after_add (s : Scanner) (m n : Nat) : s.after (m + n) = (s.after m).after n := by
  induction m generalizing s with
  | zero => rw [Nat.zero_add, after_zero]
  | succ m ih => rw [Nat.add_right_comm, after_succ, ih, after_succ]

/-- The end token of a source, which stands behind all of its text. -/
def endToken (s : Scanner) : Token := (s.skip s.rest.length).token .eof []

theorem skip_skip (s : Scanner) (m n : Nat) : (s.skip m).skip n = s.skip (m + n) := by
  unfold skip
  simp only [List.drop_drop, List.take_add, Text.byteWidth_append, Nat.add_assoc]

theorem endToken_skip (s : Scanner) (n : Nat) : (s.skip n).endToken = s.endToken := by
  unfold endToken
  rw [skip_skip, length_rest_skip]
  by_cases h : n ≤ s.rest.length
  · rw [Nat.add_sub_cancel' h]
  · have h' : s.rest.length ≤ n := by omega
    rw [Nat.sub_eq_zero_of_le h', Nat.add_zero]
    unfold skip
    rw [List.take_of_length_le h', List.take_length, List.drop_of_length_le h', List.drop_length]

theorem endToken_skipBlanks (s : Scanner) : s.skipBlanks.endToken = s.endToken := endToken_skip _ _

theorem endToken_read (s : Scanner) : s.read.2.endToken = s.endToken := by
  unfold read
  split
  · rfl
  · exact endToken_skip _ _

theorem endToken_next (s : Scanner) : s.next.2.endToken = s.endToken :=
  (endToken_read _).trans (endToken_skipBlanks s)

/-- Where nothing but blanks is left, the end token is read. -/
theorem next_of_eof (h : s.next.1.kind = .eof) : s.next = (s.endToken, s.skipBlanks) := by
  have hr := rest_skipBlanks_of_eof h
  have he : s.skipBlanks.read = (s.skipBlanks.token .eof [], s.skipBlanks) := by
    unfold read
    rw [hr]
  have ht : s.skipBlanks.token .eof [] = s.skipBlanks.endToken := by
    unfold endToken
    rw [hr, List.length_nil]
    rfl
  rw [next, he, ht, endToken_skipBlanks]

theorem next_endToken_of_eof (h : s.next.1.kind = .eof) : s.next.1 = s.endToken :=
  congrArg Prod.fst (next_of_eof h)

theorem tokens_eq_upcoming (s : Scanner) : s.tokens = s.upcoming ++ [s.endToken] := by
  induction hn : s.rest.length using Nat.strongRecOn generalizing s with
  | ind n ih =>
    subst hn
    rw [tokens_eq, upcoming_eq]
    split
    · rename_i hk
      rw [next_endToken_of_eof hk, List.nil_append]
    · rename_i hk
      rw [ih _ (length_rest_next_lt hk) _ rfl, endToken_next, List.cons_append]

/-- At the end of the source nothing else is read any more. -/
theorem after_of_eof (h : s.next.1.kind = .eof) (n : Nat) :
    (s.after n).next = s.next ∧ (s.after (n + 1)).rest = [] := by
  induction n generalizing s with
  | zero =>
    refine ⟨rfl, ?_⟩
    rw [after_succ, after_zero, next_of_eof h]
    exact rest_skipBlanks_of_eof h
  | succ n ih =>
    have hn := next_next_of_eof h
    obtain ⟨h1, h2⟩ := ih (s := s.next.2) (by rw [hn, h])
    rw [after_succ, h1, hn]
    exact ⟨rfl, h2⟩

/-- Reading one token after the other yields the tokens of the scanner, and behind them the end
token for ever. -/
theorem next_after (s : Scanner) (n : Nat) : (s.after n).next.1 = s.tokens.getD n s.endToken := by
  induction n generalizing s with
  | zero =>
    rw [after_zero, tokens_eq]
    split
    · rfl
    · rfl
  | succ n ih =>
    rw [tokens_eq]
    split
    · rename_i hk
      rw [(after_of_eof hk (n + 1)).1, next_endToken_of_eof hk]
      simp
    · rw [after_succ, ih, endToken_next, List.getD_cons_succ]

/-- Once the end token has been read, the scanner is at the end of its source. -/
theorem atEnd_after (h : s.tokens.length ≤ n) : (s.after n).atEnd := by
  induction n generalizing s with
  | zero =>
    have := List.length_pos_iff.2 (tokens_ne_nil s)
    omega
  | succ n ih =>
    by_cases hk : s.next.1.kind = .eof
    · rw [atEnd, (after_of_eof hk n).2]
      rfl
    · rw [tokens_eq, if_neg hk, List.length_cons] at h
      exact ih (Nat.le_of_succ_le_succ h)

end ExprLang.Scanner
