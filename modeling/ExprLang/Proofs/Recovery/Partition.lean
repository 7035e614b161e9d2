import ExprLang.Proofs.Grammar.Accepts
import ExprLang.Proofs.Parsing.Rounds
import ExprLang.Proofs.Recovery.Reports

/-!
# Recovery loses no token

The rounds in which a source is read cut its tokens into ranges, one behind the other, and in each
round there is either a statement, all of whose tokens are in the round's range, or a failure, which
shows on the last token of the range or on the one behind it (`parse_partition`).  This is what the
account of the tokens says of one round (`takes_firstRound`), round after round.
-/

namespace ExprLang

open Grammar

/-- The tokens `range` are those of the round, `rest` are those behind them, and `stop` is the end
token.  The round has one statement or one failure of its own, and maybe failures inside it. -/
structure Round.Takes (r : Round) (range rest : List Token) (stop : Token) : Prop where
  nonempty : range ≠ []
  start : r.start.cursor.On (range ++ rest)
  next : r.next.cursor.On rest
  outcome : (∃ st, r.statement? = some st ∧ r.own = [] ∧ ∀ t ∈ st.tokens, t ∈ range) ∨
    ∃ d, r.statement? = none ∧ r.own = [d] ∧
      ∃ t, (range.getLast? = some t ∨ t = rest.headD stop) ∧ d.position = t.position
  inner : ∀ d ∈ r.inner, ∃ t, (t ∈ range ∨ t = stop) ∧ d.position = t.position

/-- The tokens are cut into ranges, one behind the other and one for each of the rounds. -/
inductive Partitioned (stop : Token) : List Round → List Token → Prop
  | nil : Partitioned stop [] []
  | cons {r : Round} {rs : List Round} {range rest : List Token} (h : r.Takes range rest stop)
      (hrs : Partitioned stop rs rest) : Partitioned stop (r :: rs) (range ++ rest)

/-! ### Numbered tokens -/

section

variable {c : Cursor} {ts : List Token} {stop : Token}

/-- The tokens from `i` to `j`, the last one included. -/
def range (ts : List Token) (i j : Nat) : List Token := (ts.drop i).take (j + 1 - i)

theorem range_append_drop {i j : Nat} (h : i ≤ j) :
    range ts i j ++ ts.drop (j + 1) = ts.drop i := by
  have hd : ts.drop (j + 1) = (ts.drop i).drop (j + 1 - i) := by
    rw [List.drop_drop]
    congr 1
    omega
  rw [range, hd, List.take_append_drop]

theorem getElem?_range {i j k : Nat} (hi : i ≤ k) (hj : k ≤ j) :
    (range ts i j)[k - i]? = ts[k]? := by
  rw [range, List.getElem?_take_of_lt (by omega), List.getElem?_drop]
  congr 1
  omega

theorem length_range {i j : Nat} (hj : j < ts.length) : (range ts i j).length = j + 1 - i := by
  rw [range, List.length_take, List.length_drop]
  omega

/-- A cursor on tokens numbers them. -/
theorem Cursor.On.getElem?_eq (h : c.On ts) {k : Nat} (hk : k < ts.length) :
    ts[k]? = some (c.token k) := by
  have ha := h.after k
  rw [List.drop_eq_getElem_cons hk] at ha
  rw [List.getElem?_eq_getElem hk, Cursor.token, ha.current_eq]

theorem Cursor.On.lt_length (h : c.On ts) {k : Nat} (hk : (c.token k).kind ≠ .eof) :
    k < ts.length := by
  refine Nat.lt_of_not_le fun hle => hk ?_
  have ha := h.after k
  rw [List.drop_eq_nil_of_le hle] at ha
  exact ha.1

variable (h : c.On ts) (hstop : ∀ k, ts.length ≤ k → c.token k = stop) {i j k : Nat}

include h

theorem mem_range_of_between {t : Token} (ht : c.Between i j t) : t ∈ range ts i j := by
  obtain ⟨k, hi, hj, rfl, hk⟩ := ht
  refine List.mem_of_getElem? (i := k - i) ?_
  rw [getElem?_range hi hj, h.getElem?_eq (h.lt_length hk)]

include hstop

theorem mem_range_or_eq (hi : i ≤ k) (hj : k ≤ j) :
    c.token k ∈ range ts i j ∨ c.token k = stop := by
  by_cases hk : k < ts.length
  · refine .inl (List.mem_of_getElem? (i := k - i) ?_)
    rw [getElem?_range hi hj, h.getElem?_eq hk]
  · exact .inr (hstop k (Nat.le_of_not_lt hk))

theorem headD_drop_eq (k : Nat) : (ts.drop k).headD stop = c.token k := by
  by_cases hk : k < ts.length
  · rw [List.headD_eq_head?_getD, List.head?_drop, h.getElem?_eq hk, Option.getD_some]
  · rw [List.drop_eq_nil_of_le (Nat.le_of_not_lt hk), hstop k (Nat.le_of_not_lt hk),
      List.headD_nil]

/-- The token `j` is the last one of the range up to it, or that one and those behind it are the end
token. -/
theorem getLast?_range_or (hi : i ≤ j) :
    (range ts i j).getLast? = some (c.token j) ∨ c.token j = (ts.drop (j + 1)).headD stop := by
  by_cases hj : j < ts.length
  · refine .inl ?_
    rw [List.getLast?_eq_getElem?, length_range hj, Nat.sub_right_comm, Nat.add_sub_cancel,
      getElem?_range hi (Nat.le_refl j), h.getElem?_eq hj]
  · have hle := Nat.le_of_not_lt hj
    refine .inr ?_
    rw [headD_drop_eq h hstop, hstop j hle, hstop (j + 1) (Nat.le_succ_of_le hle)]

/-! ### Round by round -/

variable {limit : Nat} {s : Session}

/-- Where a round begins on the token `i`, the tokens up to the one on which its statement leaves
off are its range. -/
theorem takes_firstRound (hs : s.cursor = c.after i) (hk : (c.token i).kind ≠ .eof) :
    ∃ j, i ≤ j ∧ (firstRound (expressionWithin limit) s).next.cursor = c.after (j + 1) ∧
      (firstRound (expressionWithin limit) s).Takes (range ts i j) (ts.drop (j + 1)) stop := by
  have hreached : Reached limit c i s.errors.toList i s := .refl hs
  have htr := (traces_expressionOn (limit - s.depth)).statement hreached
  rw [← run_statement_expressionWithin rfl] at htr
  have hrange : ∀ {j}, i ≤ j → range ts i j ≠ [] := fun hij =>
    List.ne_nil_of_mem (mem_range_of_between h ⟨i, Nat.le_refl i, hij, rfl, hk⟩)
  have hstart : ∀ {j}, i ≤ j → s.cursor.On (range ts i j ++ ts.drop (j + 1)) := by
    intro j hij
    rw [range_append_drop hij, hs]
    exact h.after i
  -- a report inside the round is about a token before `j`, so it shows on `j` at the latest
  have hinner : ∀ {j : Nat} {t : Session}, Reached limit c i s.errors.toList j t →
      ∀ d ∈ t.errors.toList.drop s.errors.size,
        ∃ u, (u ∈ range ts i j ∨ u = stop) ∧ d.position = u.position := by
    rintro j t ⟨-, ds, he, ha⟩ d hd
    rw [he, ← Array.length_toList, List.drop_left] at hd
    obtain ⟨k, hik, hkj, hb⟩ := ha.exists_blames hd
    rcases hb.position with hp | hp
    · exact ⟨_, mem_range_or_eq h hstop hik (Nat.le_of_lt hkj), hp⟩
    · exact ⟨_, mem_range_or_eq h hstop (Nat.le_succ_of_le hik) hkj, hp⟩
  unfold firstRound
  generalize (statement (expressionWithin limit)).run s = r at *
  cases htr with
  | @ok st j t ht hij hu hv =>
    have hnext : t.next.cursor = c.after (j + 1) := congrArg Cursor.advance ht.cursor
    refine ⟨j, hij, hnext, hrange hij, hstart hij, hnext ▸ h.after (j + 1), .inl ?_, hinner ht⟩
    exact ⟨st, rfl, rfl, fun t ht => mem_range_of_between h (hv.between t ht)⟩
  | @error d j t ht hij hb =>
    have hnext : (t.report d).next.cursor = c.after (j + 1) :=
      congrArg Cursor.advance ht.cursor
    refine ⟨j, hij, hnext, hrange hij, hstart hij, hnext ▸ h.after (j + 1), .inr ?_, hinner ht⟩
    refine ⟨d, rfl, rfl, ?_⟩
    rcases hb.position with hp | hp
    · exact ⟨_, getLast?_range_or h hstop hij, hp⟩
    · exact ⟨_, .inr (headD_drop_eq h hstop (j + 1)).symm, hp⟩

/-- If only the end of the source closes a list, then the rounds that begin on the token `i` cut the
tokens from there on into ranges. -/
theorem partitioned_rounds {closes : Kind → Bool} {hc : closes .eof}
    (hcl : ∀ k, closes k → k = .eof) (hs : s.cursor = c.after i) :
    Partitioned stop (rounds (expressionWithin limit) closes hc s) (ts.drop i) := by
  induction hn : s.cursor.size using Nat.strongRecOn generalizing s i with
  | ind n ih =>
    subst hn
    by_cases hk : closes s.cursor.current.kind
    · have hnil : ts.drop i = [] := by
        have ha := h.after i
        rw [← hs] at ha
        cases hd : ts.drop i with
        | nil => rfl
        | cons t us =>
          rw [hd] at ha
          exact absurd (ha.current_eq ▸ hcl _ hk) ha.kind_ne_eof
      rw [rounds_of_closes hk, hnil]
      exact .nil
    · have hne : (c.token i).kind ≠ .eof := by
        intro he
        rw [hs] at hk
        exact hk (he ▸ hc)
      obtain ⟨j, hij, hnext, ht⟩ := takes_firstRound h hstop hs hne
      rw [rounds_of_not_closes hk, ← range_append_drop hij]
      exact .cons ht (ih _ (size_next_firstRound_lt hc hk) hnext rfl)

end

/-! ### Whole sources -/

/-- Behind its other tokens, a source has its end token for ever. -/
theorem token_ofSource_of_le {source : String} {file : Option String} {k : Nat}
    (hk : ((tokenize source file).filter (·.kind ≠ .eof)).length ≤ k) :
    (Session.ofSource source file).cursor.token k =
      (tokenize source file).getLast (Scanner.tokens_ne_nil _) := by
  rw [tokenize, Scanner.filter_tokens] at hk
  rw [token_ofSource_of_upcoming_le source file hk, getLast_tokenize]

/-- **Recovery accounts for every token.**  What is read of a source are the statements of its
rounds, what is reported are the failures in them, and the rounds cut the tokens of the source into
ranges that are not empty, each with what belongs to its round. -/
theorem parse_partition (source : String) (file : Option String) :
    (parse source file).1.statements =
        (programRounds expression source file).filterMap Round.statement? ∧
      (parse source file).2.toList =
        (programRounds expression source file).flatMap Round.reports ∧
      Partitioned ((tokenize source file).getLast (Scanner.tokens_ne_nil _))
        (programRounds expression source file)
        ((tokenize source file).filter (·.kind ≠ .eof)) := by
  have hr := run_program_rounds expression source file
  refine ⟨hr.1, hr.2, ?_⟩
  exact partitioned_rounds (i := 0) (on_tokenize source file) (fun _ => token_ofSource_of_le)
    (fun _ hk => beq_iff_eq.1 hk) rfl

end ExprLang
