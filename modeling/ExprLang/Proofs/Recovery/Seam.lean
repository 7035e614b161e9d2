import ExprLang.Proofs.Grammar.Braces
import ExprLang.Proofs.Grammar.Sound
import ExprLang.Proofs.Parsing.Rounds
import ExprLang.Proofs.Recovery.Confined

/-!
# A semicolon as a seam

Let a source end with a semicolon, and let something stand behind it.  As long as no round of the
source runs into its end, the same rounds are gone through with the text behind it, and then the
list of statements goes on at the seam (`run_statements_meets`).  No round runs into the end if the
source has no opening brace (`finish_of_no_lbrace`), or if nothing is reported and as many braces are
closed as are opened (`ReadsExpr.finish_of_opened`).
-/

namespace ExprLang

open Parse Walk Grammar

variable {c d : Cursor} {m i : Nat} {expr : Power → Parse Expr} {closes : Kind → Bool}
  {hc : closes .eof} {s : Session}

/-- The `m` tokens from `d` on are the first ones from `c` on, and the last of them is a
semicolon. -/
structure Cursor.Meets (c d : Cursor) (m : Nat) : Prop where
  same : ∀ k < m, c.token k = d.token k
  eof : ∀ k, (d.token k).kind = .eof ↔ m ≤ k
  semicolon : ∀ k, k + 1 = m → (d.token k).kind = .semicolon

theorem Cursor.Meets.agrees (h : c.Meets d m) {k : Nat} (hik : i + k < m) :
    (c.after i).Agrees (d.after i) k := by
  intro j hj
  rw [token_after, token_after]
  refine h.same (i + j) ?_
  rcases hj with hj | ⟨rfl, hj⟩
  · omega
  · rw [token_after] at hj
    refine Nat.lt_of_not_le fun hle => hj (h.semicolon (i + k) ?_)
    omega

/-- A round that does not run into the end of the source is the same with something behind it. -/
theorem firstRound_meets (hx : Confines expr) (h : c.Meets d m) (hs : s.cursor = d.after i)
    (hfinish : (firstRound expr s).finish.cursor.current.kind ≠ .eof) :
    ∃ k < m, (firstRound expr s).finish.cursor = d.after k ∧
      (firstRound expr (s.moveTo (c.after i))).statement? = (firstRound expr s).statement? ∧
      (firstRound expr (s.moveTo (c.after i))).next =
        (firstRound expr s).next.moveTo (c.after (k + 1)) := by
  obtain ⟨k, hset, -, -⟩ := hx.statement s
  have hcur : (firstRound expr s).finish.cursor = d.after (i + k) := by
    rw [Cursor.after_add, ← hs]
    exact hset.cursor
  have hik : i + k < m := by
    refine Nat.lt_of_not_le fun hle => hfinish ?_
    rw [hcur]
    exact (h.eof (i + k)).2 hle
  have hrec := (settles_recorded hset).run (c.after i) (hs ▸ h.agrees hik)
  refine ⟨i + k, hik, hcur, ?_, ?_⟩
  · rw [← fst_recorded_statement, hrec, fst_recorded_statement]
  · rw [← next_recorded_statement, hrec, ← next_recorded_statement, ← Cursor.after_add]
    rfl

/-- Before the seam nothing depends on what stands behind it. -/
theorem run_statements_meets (hx : Confines expr) (hcl : ∀ k, closes k → k = .eof)
    (h : c.Meets d m) (hs : s.cursor = d.after i) (hi : i ≤ m)
    (hr : ∀ r ∈ rounds expr closes hc s, r.finish.cursor.current.kind ≠ .eof) :
    (statements expr closes hc).run (s.moveTo (c.after i)) =
      let r := (statements expr closes hc).run s
      let q := (statements expr closes hc).run (r.2.moveTo (c.after m))
      (r.1 ++ q.1, q.2) := by
  induction hn : s.cursor.size using Nat.strongRecOn generalizing s i with
  | ind n ih =>
    subst hn
    have hcur : s.cursor.current = d.token i := congrArg Cursor.current hs
    by_cases hk : closes s.cursor.current.kind
    · have him : m ≤ i := (h.eof i).1 (hcur ▸ hcl _ hk)
      obtain rfl : i = m := by omega
      have hrun : (statements expr closes hc).run s = ([], s) := by
        rw [run_statements, if_pos hk]
      rw [hrun]
      rfl
    · have him : i < m := by
        refine Nat.lt_of_not_le fun hle => hk ?_
        rw [hcur, (h.eof i).2 hle]
        exact hc
      have hk' : ¬ closes (s.moveTo (c.after i)).cursor.current.kind := by
        have hsame : (s.moveTo (c.after i)).cursor.current = s.cursor.current :=
          (h.same i him).trans hcur.symm
        rwa [hsame]
      rw [rounds_of_not_closes hk] at hr
      obtain ⟨hfirst, hrest⟩ := List.forall_mem_cons.1 hr
      obtain ⟨k, hkm, hfinish, hst, hmove⟩ := firstRound_meets hx h hs hfirst
      have hnext : (firstRound expr s).next.cursor = d.after (k + 1) := by
        rw [Cursor.after_succ, ← hfinish]
        exact (firstRound expr s).cursor_next
      have hind := ih _ (size_next_firstRound_lt hc hk) hnext hkm hrest rfl
      rw [run_statements, if_neg hk', run_statements s, if_neg hk]
      simp only [next_recorded_statement, fst_recorded_statement, hst, hmove, hind,
        List.append_assoc]

/-- Where there are no braces, a round ends with the next semicolon at the latest. -/
theorem finish_of_no_lbrace (hx : Confines expr) (h : c.Meets d m)
    (hb : ∀ k < m, (d.token k).kind ≠ .lbrace) (hs : s.cursor = d.after i) :
    ∀ r ∈ rounds expr closes hc s, r.finish.cursor.current.kind ≠ .eof := by
  intro r hr he
  obtain ⟨t, rfl, ⟨j, hj⟩, hk⟩ := exists_of_mem_rounds hr
  have ht : t.cursor = d.after (i + j) := by rw [hj, hs, Cursor.after_add]
  obtain ⟨k, hset, hclear, -⟩ := hx.statement t
  have hfinish : (firstRound expr t).finish.cursor = d.after (i + j + k) := by
    rw [Cursor.after_add, ← ht]
    exact hset.cursor
  have hlt : i + j < m := by
    refine Nat.lt_of_not_le fun hle => hk ?_
    have htok : t.cursor.current = d.token (i + j) := congrArg Cursor.current ht
    rw [htok, (h.eof _).2 hle]
    exact hc
  have hle : m ≤ i + j + k := by
    rw [hfinish] at he
    exact (h.eof _).1 he
  -- the last semicolon of the source would stand before the end of the round
  obtain ⟨l, hl⟩ := Nat.exists_eq_add_of_lt hlt
  rw [ht] at hclear
  obtain ⟨l', hl', hbrace⟩ := hclear l (by omega) (by
    rw [Cursor.token_after]
    exact h.semicolon _ hl.symm)
  rw [Cursor.token_after] at hbrace
  exact hb _ (by omega) hbrace

/-! ### As many closing braces as opening ones -/

/-- The tokens end with a semicolon, if there are any, and open no more blocks than they close. -/
structure Sealed (ts : List Token) : Prop where
  closed : opened ts ≤ 0
  last : ∀ vs u, ts = vs ++ [u] → u.kind = .semicolon

theorem Sealed.of_append {us ts : List Token} (h : Sealed (us ++ ts)) (hus : 0 ≤ opened us) :
    Sealed ts := by
  have ho := h.closed
  rw [opened_append] at ho
  refine ⟨by omega, fun vs u hu => h.last (us ++ vs) u ?_⟩
  rw [hu, List.append_assoc]

theorem Sealed.of_cons {t : Token} {ts : List Token} {k : Kind} (h : Sealed (t :: ts))
    (hk : t.kind = k) (ho : 0 ≤ k.opens) : Sealed ts := by
  have ho' : 0 ≤ opened [t] := by
    rw [opened_cons_of_kind hk]
    exact Int.le_trans ho (Int.le_of_eq (Int.add_zero _).symm)
  exact Sealed.of_append h ho'

namespace Grammar

variable {levels : Nat} {before : List Token} {t : Session} (h : ReadsExpr expr levels)

include h

/-- The value of a statement does not reach to the end of the source: it would end with the last
semicolon, or leave a block open. -/
theorem ReadsExpr.finish_of_value {v : Expr} (hv : (expr .lowest).Yields s v t)
    (hs : s.cursor.On before) (hb : Sealed before) :
    (behindSemicolon t).cursor.current.kind ≠ .eof := by
  intro he
  obtain ⟨n, mid, -, hd, ht, -⟩ := h _ _ _ _ _ hv hs
  have hahead : s.cursor.Ahead t.cursor := by
    have ha := (expr .lowest).attempt.ahead s
    rwa [run_attempt, hv.1] at ha
  have hcur : t.cursor.current.kind = .eof := by
    unfold behindSemicolon at he
    split at he
    · rename_i hk
      exact absurd (hk.symm.trans he) nofun
    · exact he
  -- the session is behind all tokens
  obtain ⟨us, -, hus⟩ := hahead.on hs
  have hnil : us = [] := by
    cases us with
    | nil => rfl
    | cons u us => exact absurd (hus.current_eq ▸ hcur) hus.kind_ne_eof
  subst hnil
  have hmid : mid = [] := ht.unique hus.advance_tail
  subst hmid
  obtain ⟨us, hbefore, hus0, hend⟩ := hd.braces
  rw [List.append_nil] at hbefore
  subst hbefore
  have hle := hb.closed
  obtain ⟨vs, u, hvs, hu⟩ := hend rfl (by omega)
  exact hu (hb.last vs u hvs)

theorem ReadsExpr.finish_of_statement {st : Stmt} (hst : (Grammar.statement expr).Yields s st t)
    (hs : s.cursor.On before) (hb : Sealed before) : t.cursor.current.kind ≠ .eof := by
  rw [yields_statement] at hst
  have bare : (bareExpression expr).Yields s st t → t.cursor.current.kind ≠ .eof := by
    intro hst
    obtain ⟨v, u, hv, -, rfl⟩ := yields_bareExpression.1 hst
    exact h.finish_of_value hv hs hb
  cases hk : s.cursor.current.kind <;> rw [hk] at hst
  case letWord =>
    obtain ⟨hx, ha, v, u, hv, -, rfl⟩ := yields_binding.1 hst
    obtain ⟨before, rfl⟩ := hs.eq_cons (by rw [hk]; nofun)
    obtain ⟨before, rfl⟩ := hs.advance.eq_cons (by rw [Cursor.current_advance, hx]; nofun)
    obtain ⟨before, rfl⟩ := hs.advance.advance.eq_cons (by
      rw [Cursor.current_advance]
      exact fun he => absurd (ha.symm.trans he) nofun)
    have hb' := ((hb.of_cons hk (by decide)).of_cons hx (by decide)).of_cons ha (by decide)
    exact h.finish_of_value hv hs.advance.advance.advance hb'
  case returnWord =>
    obtain ⟨v, u, hv, -, rfl⟩ := yields_result.1 hst
    obtain ⟨before, rfl⟩ := hs.eq_cons (by rw [hk]; nofun)
    exact h.finish_of_value hv hs.advance (hb.of_cons hk (by decide))
  all_goals exact bare hst

/-- If nothing is reported, and as many braces are closed as are opened, then no round runs into the
end of the source.  The induction is on how many tokens are left. -/
theorem ReadsExpr.finish_of_opened {ss : List Stmt}
    (hss : (Grammar.statements expr closes hc).Yields s ss t) (hs : s.cursor.On before)
    (hb : Sealed before) :
    ∀ r ∈ rounds expr closes hc s, r.finish.cursor.current.kind ≠ .eof := by
  induction hl : before.length using Nat.strongRecOn generalizing s ss before with
  | ind l ih =>
    subst hl
    rw [yields_statements] at hss
    by_cases hk : closes s.cursor.current.kind
    · rw [rounds_of_closes hk]
      exact fun r hr => absurd hr List.not_mem_nil
    · rw [if_neg hk] at hss
      obtain ⟨st, u, ss', hst, hss', -⟩ := hss
      have hfirst : firstRound expr s = ⟨s, .ok st, u⟩ := by
        rw [firstRound, hst.1]
      obtain ⟨n, after, -, hd, hu⟩ := h.statement hst hs
      obtain ⟨us, hbefore, hus, -⟩ := hd.braces
      rw [rounds_of_not_closes hk, hfirst]
      refine List.forall_mem_cons.2 ⟨h.finish_of_statement hst hs hb, ?_⟩
      exact ih _ hd.length_stmt_lt hss' hu ((hbefore ▸ hb).of_append hus) rfl

end Grammar

end ExprLang
