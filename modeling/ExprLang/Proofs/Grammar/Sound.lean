import ExprLang.Proofs.Grammar.Derives
import ExprLang.Proofs.Parsing.Forms

/-!
# What is read without a report is in the grammar

Each parse, where it yields something, has a derivation for it, and the derivation nests no deeper
than levels may be opened.  `ReadsExpr` says so of the expressions inside a form; from it follows
the same for every form, and by induction on the levels it holds of `expressionOn`.
-/

namespace ExprLang.Grammar

open Parse Walk

variable {expr : Power → Parse Expr} {levels : Nat} {s t : Session} {before : List Token}

/-- What `expr` yields has a derivation; an operator that would belong to it does not follow. -/
def ReadsExpr (expr : Power → Parse Expr) (levels : Nat) : Prop :=
  ∀ power s e t before, (expr power).Yields s e t → s.cursor.On before →
    ∃ n after, n ≤ levels ∧ Derives (.expr power.tighter e) before n after ∧
      t.cursor.advance.On after ∧ ¬ power < (headKind after).power

/-! ### Lists of statements and blocks -/

section Statements

variable (h : ReadsExpr expr levels)

include h

/-- An expression at the end of a statement, and what stands behind the statement. -/
theorem ReadsExpr.value {v : Expr} {u : Session} (hv : (expr .lowest).Yields s v u)
    (hs : s.cursor.On before) :
    ∃ n mid after, n ≤ levels ∧ Derives (.expr .lowest v) before n mid ∧ Ends mid after ∧
      (behindSemicolon u).cursor.advance.On after := by
  obtain ⟨n, mid, hn, hd, hu, hp⟩ := h _ _ _ _ _ hv hs
  have hd' : Derives (.expr .lowest v) before n mid := .looser (by decide) hd
  have hk := hu.kind_peek_of_advance
  unfold behindSemicolon
  split
  · rename_i hsemi
    rw [hk] at hsemi
    cases mid with
    | nil => exact absurd hsemi nofun
    | cons m after => exact ⟨n, _, after, hn, hd', .semicolon hsemi, hu.advance⟩
  · refine ⟨n, mid, mid, hn, hd', .bare ?_, hu⟩
    intro hm
    rw [hm] at hp
    exact hp (by decide)

theorem ReadsExpr.statement {st : Stmt} (hst : (statement expr).Yields s st t)
    (hs : s.cursor.On before) :
    ∃ n after, n ≤ levels ∧ Derives (.stmt st) before n after ∧ t.cursor.advance.On after := by
  rw [yields_statement] at hst
  have bare : (bareExpression expr).Yields s st t → ∃ n after, n ≤ levels ∧
      Derives (.stmt st) before n after ∧ t.cursor.advance.On after := by
    intro hb
    obtain ⟨v, u, hv, rfl, rfl⟩ := yields_bareExpression.1 hb
    obtain ⟨n, mid, after, hn, hd, he, ht⟩ := h.value hv hs
    cases before with
    | nil => exact absurd hd.length_expr_lt (Nat.not_lt_zero _)
    | cons w before =>
      rw [hs.current_eq]
      exact ⟨n, after, hn, .expression hd he, ht⟩
  cases hk : s.cursor.current.kind
  case letWord =>
    rw [hk] at hst
    obtain ⟨hx, ha, v, u, hv, rfl, rfl⟩ := yields_binding.1 hst
    obtain ⟨before, rfl⟩ := hs.eq_cons (by rw [hk]; nofun)
    obtain ⟨before, rfl⟩ := hs.advance.eq_cons (by rw [Cursor.current_advance, hx]; nofun)
    obtain ⟨before, rfl⟩ := hs.advance.advance.eq_cons (by
      rw [Cursor.current_advance]
      exact fun he => absurd (ha.symm.trans he) nofun)
    obtain ⟨n, mid, after, hn, hd, he, ht⟩ := h.value hv hs.advance.advance.advance
    exact ⟨n, after, hn, .binding hk hx ha hd he, ht⟩
  case returnWord =>
    rw [hk] at hst
    obtain ⟨v, u, hv, rfl, rfl⟩ := yields_result.1 hst
    obtain ⟨before, rfl⟩ := hs.eq_cons (by rw [hk]; nofun)
    obtain ⟨n, mid, after, hn, hd, he, ht⟩ := h.value hv hs.advance
    exact ⟨n, after, hn, .result hk hd he, ht⟩
  all_goals
    rw [hk] at hst
    exact bare hst

/-- The induction is on how many tokens are left. -/
theorem ReadsExpr.statements {closes : Kind → Bool} {hc : closes .eof} {ss : List Stmt}
    (hss : (statements expr closes hc).Yields s ss t) (hs : s.cursor.On before) :
    ∃ n after, n ≤ levels ∧ Derives (.stmts ss) before n after ∧ t.cursor.On after ∧
      closes (headKind after) := by
  induction hl : before.length using Nat.strongRecOn generalizing s ss before with
  | ind l ih =>
    subst hl
    rw [yields_statements] at hss
    split at hss
    · rename_i hk
      obtain ⟨rfl, rfl⟩ := hss
      rw [hs.kind_current] at hk
      exact ⟨0, before, Nat.zero_le _, .nil, hs, hk⟩
    · obtain ⟨st, u, ss', hst, hss, rfl⟩ := hss
      obtain ⟨m, mid, hm, hd, hu⟩ := h.statement hst hs
      obtain ⟨n, after, hn, hd', ht, hk⟩ := ih _ hd.length_stmt_lt hss hu rfl
      exact ⟨max m n, after, Nat.max_le.2 ⟨hm, hn⟩, .cons hd hd', ht, hk⟩

theorem ReadsExpr.block {b : Block} (hb : (block expr).Yields s b t) (hs : s.cursor.On before)
    (hk : s.cursor.current.kind = .lbrace) :
    ∃ n after, n ≤ levels ∧ Derives (.block b) before n after ∧ t.cursor.advance.On after := by
  obtain ⟨ss, hss, rfl⟩ := yields_block.1 hb
  obtain ⟨before, rfl⟩ := hs.eq_cons (by rw [hk]; nofun)
  obtain ⟨n, after, hn, hd, ht, hc⟩ := h.statements hss hs.advance
  cases after with
  | nil => exact ⟨n, [], hn, .unclosed hk hd, ht.advance_tail⟩
  | cons r after =>
    have hr : r.kind = .rbrace := by
      have := ht.kind_ne_eof
      simpa [closesBlock, this] using hc
    exact ⟨n, after, hn, .closed hk hr hd, ht.advance⟩

end Statements

/-! ### Operands and operations -/

section Operands

variable (h : ReadsExpr expr levels)

include h

theorem ReadsExpr.grouped {e : Expr} (hg : (grouped expr).Yields s e t) (hs : s.cursor.On before)
    (hk : s.cursor.current.kind = .lparen) :
    ∃ n after, n ≤ levels + 1 ∧ Derives (.expr .call e) before n after ∧
      t.cursor.advance.On after := by
  obtain ⟨u, he, hr, rfl⟩ := yields_grouped.1 hg
  obtain ⟨before, rfl⟩ := hs.eq_cons (by rw [hk]; nofun)
  obtain ⟨n, mid, hn, hd, hu, -⟩ := h _ _ _ _ _ he hs.advance
  obtain ⟨after, rfl⟩ := hu.eq_cons (by rw [Cursor.current_advance, hr]; nofun)
  exact ⟨1 + n, after, by omega, .grouped hk hr (.looser (by decide) hd), hu.advance⟩

theorem ReadsExpr.conditional {e : Expr} (he : (conditional expr).Yields s e t)
    (hs : s.cursor.On before) (hk : s.cursor.current.kind = .ifWord) :
    ∃ n after, n ≤ levels + 1 ∧ Derives (.expr .call e) before n after ∧
      t.cursor.advance.On after := by
  obtain ⟨hl, c, u, hc, hr, hb, b, w, hbl, hrest⟩ := yields_conditional.1 he
  obtain ⟨before, rfl⟩ := hs.eq_cons (by rw [hk]; nofun)
  obtain ⟨before, rfl⟩ := hs.advance.eq_cons (by rw [Cursor.current_advance, hl]; nofun)
  obtain ⟨m, mid, hm, hdc, hu, -⟩ := h _ _ _ _ _ hc hs.advance.advance
  obtain ⟨mid, rfl⟩ := hu.eq_cons (by rw [Cursor.current_advance, hr]; nofun)
  have hdc' := Derives.looser (p := .lowest) (by decide) hdc
  obtain ⟨n, after, hn, hdb, hw⟩ := h.block hbl hu.advance hb
  split at hrest
  · rename_i helse
    obtain ⟨hlb, a, hal, rfl⟩ := hrest
    obtain ⟨after, rfl⟩ := hw.eq_cons (by rw [Cursor.current_advance, helse]; nofun)
    obtain ⟨k, after, hk', hda, ht⟩ := h.block hal hw.advance hlb
    exact ⟨_, after, by omega, .conditionalElse hk hl hr helse hdc' hdb hda, ht⟩
  · obtain ⟨rfl, rfl⟩ := hrest
    exact ⟨_, after, by omega, .conditional hk hl hr hdc' hdb, hw⟩

theorem ReadsExpr.operand {e : Expr} (he : (operand expr).Yields s e t)
    (hs : s.cursor.On before) :
    ∃ n after, n ≤ levels + 1 ∧ Derives (.expr .unary e) before n after ∧
      t.cursor.advance.On after := by
  obtain ⟨x, hx, he⟩ := yields_operand.1 he
  have call : (∃ n after, n ≤ levels + 1 ∧ Derives (.expr .call e) before n after ∧
      t.cursor.advance.On after) → ∃ n after, n ≤ levels + 1 ∧
      Derives (.expr .unary e) before n after ∧ t.cursor.advance.On after := by
    rintro ⟨n, after, hn, hd, ht⟩
    exact ⟨n, after, hn, .looser (by decide) hd, ht⟩
  have unary : s.cursor.current.kind = .bang ∨ s.cursor.current.kind = .minus →
      (unary expr).Yields s e t → ∃ n after, n ≤ levels + 1 ∧
      Derives (.expr .unary e) before n after ∧ t.cursor.advance.On after := by
    intro hop he
    obtain ⟨r, hr, rfl⟩ := yields_unary.1 he
    obtain ⟨before, rfl⟩ := hs.eq_cons (by rcases hop with hop | hop <;> (rw [hop]; nofun))
    obtain ⟨n, after, hn, hd, ht, -⟩ := h _ _ _ _ _ hr hs.advance
    exact ⟨1 + n, after, by omega, .unary hop hd, ht⟩
  cases hk : s.cursor.current.kind <;> rw [hk] at hx <;> cases hx
  all_goals obtain ⟨before, rfl⟩ := hs.eq_cons (by rw [hk]; nofun)
  case ident =>
    obtain ⟨rfl, rfl⟩ := yields_ident.1 he
    exact call ⟨1, before, by omega, .ident hk, hs.advance⟩
  case int =>
    obtain ⟨n, hn, rfl, rfl⟩ := yields_number.1 he
    exact call ⟨1, before, by omega, .number hk (numeral_iff.2 hn), hs.advance⟩
  case trueWord =>
    obtain ⟨he, rfl⟩ := yields_boolean.1 he
    have hv : t.cursor.current.is .trueWord = true := by simp [Token.is, hk]
    rw [hv] at he
    subst he
    exact call ⟨1, before, by omega, .truth hk, hs.advance⟩
  case falseWord =>
    obtain ⟨he, rfl⟩ := yields_boolean.1 he
    have hv : t.cursor.current.is .trueWord = false := by simp [Token.is, hk]
    rw [hv] at he
    subst he
    exact call ⟨1, before, by omega, .falsity hk, hs.advance⟩
  case bang => exact unary (.inl hk) he
  case minus => exact unary (.inr hk) he
  case lparen => exact call (h.grouped he hs hk)
  case ifWord => exact call (h.conditional he hs hk)

/-- The left side of the operations still to come is of a stratum `q` that no operator behind it
exceeds, and that is tight enough for the whole. -/
theorem ReadsExpr.operations {power q : Power} {left e : Expr} {mid : List Token} {m : Nat}
    (he : (operations expr power left).Yields s e t) (hd : Derives (.expr q left) before m mid)
    (hm : m ≤ levels + 1) (hs : s.cursor.advance.On mid) (hq : power.tighter.rank ≤ q.rank)
    (hmid : (headKind mid).power.rank ≤ q.rank) :
    ∃ n after, n ≤ levels + 1 ∧ Derives (.expr power.tighter e) before n after ∧
      t.cursor.advance.On after ∧ ¬ power < (headKind after).power := by
  induction hl : mid.length using Nat.strongRecOn generalizing s left mid m q with
  | ind l ih =>
    subst hl
    have hk := hs.kind_peek_of_advance
    rw [yields_operations] at he
    split at he
    · rename_i hp
      obtain ⟨l, u, hb, he⟩ := he
      obtain ⟨r, hr, rfl⟩ := yields_binary.1 hb
      have hop := operator_of_lt_power hp
      obtain ⟨mid, rfl⟩ := hs.eq_cons (Kind.ne_eof_of_lt_power hp)
      obtain ⟨n, after, hn, hdr, hu, hstop⟩ := h _ _ _ _ _ hr hs.advance
      have hdl := hd.loosen hmid
      have hd' := Derives.binary hop hdl hdr
      refine ih _ ?_ he hd' (by omega) hu (Power.rank_tighter_le_of_lt hp) (Nat.not_lt.1 hstop) rfl
      have := hdr.length_expr_lt
      simp only [List.length_cons]
      omega
    · rename_i hp
      obtain ⟨rfl, rfl⟩ := he
      exact ⟨m, mid, hm, hd.loosen hq, hs, hk ▸ hp⟩

theorem ReadsExpr.expressionAbove {power : Power} {e : Expr}
    (he : (expressionAbove expr power).Yields s e t) (hs : s.cursor.On before) :
    ∃ n after, n ≤ levels + 1 ∧ Derives (.expr power.tighter e) before n after ∧
      t.cursor.advance.On after ∧ ¬ power < (headKind after).power := by
  obtain ⟨l, u, hl, he⟩ := yields_expressionAbove.1 he
  obtain ⟨m, mid, hm, hd, hu⟩ := h.operand hl hs
  refine h.operations he hd hm hu power.rank_tighter_le ?_
  cases headKind mid <;> decide

end Operands

/-! ### All levels -/

theorem readsExpr_expressionOn (limit levels : Nat) :
    ReadsExpr (expressionOn limit levels) levels := by
  induction levels with
  | zero =>
    intro power s e t before he
    exact absurd he yields_expressionOn_zero
  | succ levels ih =>
    intro power s e t before hy hs
    obtain ⟨u, he, rfl⟩ := yields_expressionOn_succ.1 hy
    obtain ⟨n, after, hn, hd, hu, hstop⟩ := ih.expressionAbove he hs
    exact ⟨n, after, hn, hd, hu, hstop⟩

end ExprLang.Grammar
