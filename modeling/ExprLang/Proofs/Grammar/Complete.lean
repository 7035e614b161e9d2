import ExprLang.Proofs.Grammar.Derives
import ExprLang.Proofs.Parsing.Forms

/-!
# What is in the grammar is read without a report

`Determines limit f before n after` says what a derivation of `f` means for a parse that stands on
`before`: it yields exactly what is derived and ends in front of `after`, provided that `n` levels
may be opened; if not, it yields nothing.  An expression is followed up to the operations that come
behind it, since the loop that reads them does not see where a derivation ends.

`determines_of_derives` is by induction on the derivation, with a lemma for each of its rules.
-/

namespace ExprLang.Grammar

open Parse Walk

/-- What stands behind an expression of the stratum `q` does not belong to it. -/
def Apart (q : Power) (k : Kind) : Prop := k.power.rank ≤ q.rank ∧ k ≠ .elseWord

/-- What a derivation means for a parse; `d` is the last token of the text. -/
def Determines (limit : Nat) : Form → List Token → Nat → List Token → Prop
  | .expr q e, before, n, after => Apart q (headKind after) → ∀ c : Cursor, c.On before →
    ∃ d : Cursor, d.advance.On after ∧ ∀ levels (power : Power) (s : Session) e' t,
      power.tighter.rank ≤ max 1 q.rank → s.cursor = c →
      ((expressionAbove (expressionOn limit levels) power).Yields s e' t ↔
        n ≤ levels + 1 ∧ (operations (expressionOn limit levels) power e).Yields (s.moveTo d) e' t)
  | .stmt st, before, n, after => (headKind after).Separate → ∀ c : Cursor, c.On before →
    ∃ d : Cursor, d.advance.On after ∧ ∀ levels (s : Session) st' t, s.cursor = c →
      ((statement (expressionOn limit levels)).Yields s st' t ↔
        n ≤ levels ∧ st' = st ∧ t = s.moveTo d)
  | .stmts ss, before, n, after => ∀ (closes : Kind → Bool) (h : closes .eof),
    (∀ k : Kind, k.opensStmt → ¬ closes k) → closes (headKind after) → (headKind after).Separate →
    ∀ c : Cursor, c.On before →
    ∃ d : Cursor, d.On after ∧ ∀ levels (s : Session) ss' t, s.cursor = c →
      ((statements (expressionOn limit levels) closes h).Yields s ss' t ↔
        n ≤ levels ∧ ss' = ss ∧ t = s.moveTo d)
  | .block b, before, n, after => ∀ c : Cursor, c.On before →
    ∃ d : Cursor, d.advance.On after ∧ ∀ levels (s : Session) b' t, s.cursor = c →
      ((block (expressionOn limit levels)).Yields s b' t ↔
        n ≤ levels ∧ b' = b ∧ t = s.moveTo d)

section

variable {limit : Nat} {q : Power} {e : Expr} {before mid after : List Token} {m n : Nat}

/-- An expression that is read to its end: no operator follows that the parse would take. -/
theorem Determines.expressionOn (h : Determines limit (.expr q e) before n after) (hn : 0 < n)
    (ha : Apart q (headKind after)) {c : Cursor} (hc : c.On before) (power : Power)
    (hq : power.tighter.rank ≤ max 1 q.rank) (hp : ¬ power < (headKind after).power) :
    ∃ d : Cursor, d.advance.On after ∧ ∀ levels (s : Session) e' t, s.cursor = c →
      ((ExprLang.expressionOn limit levels power).Yields s e' t ↔
        n ≤ levels ∧ e' = e ∧ t = s.moveTo d) := by
  obtain ⟨d, hd, h⟩ := h ha c hc
  refine ⟨d, hd, fun levels s e' t hs => ?_⟩
  cases levels with
  | zero =>
    constructor
    · exact fun hy => absurd hy yields_expressionOn_zero
    · exact fun hy => absurd hy.1 (by omega)
  | succ levels =>
    have hstop : ¬ power < (s.deeper.moveTo d).cursor.peek.kind.power := by
      rw [Session.cursor_moveTo, hd.kind_peek_of_advance]
      exact hp
    rw [yields_expressionOn_succ]
    constructor
    · rintro ⟨u, hy, rfl⟩
      obtain ⟨hl, hy⟩ := (h levels power s.deeper e' u hq hs).1 hy
      obtain ⟨rfl, rfl⟩ := (yields_operations_stop hstop).1 hy
      exact ⟨hl, rfl, rfl⟩
    · rintro ⟨hl, rfl, rfl⟩
      exact ⟨_, (h levels power s.deeper _ _ hq hs).2
        ⟨hl, (yields_operations_stop hstop).2 ⟨rfl, rfl⟩⟩, rfl⟩

/-! ### Operands -/

/-- An expression that a single operand makes up. -/
theorem determines_of_operand {k : Kind} (hk : headKind before = k)
    (h : ∀ c : Cursor, Apart q (headKind after) → c.On before →
      ∃ d : Cursor, d.advance.On after ∧ ∀ levels (s : Session), s.cursor = c →
        ∃ x, operand? (ExprLang.expressionOn limit levels) k = some x ∧
          ∀ e' t, x.Yields s e' t ↔ n ≤ levels + 1 ∧ e' = e ∧ t = s.moveTo d) :
    Determines limit (.expr q e) before n after := by
  intro ha c hc
  obtain ⟨d, hd, h⟩ := h c ha hc
  refine ⟨d, hd, fun levels power s e' t _ hs => ?_⟩
  obtain ⟨x, hx, h⟩ := h levels s hs
  have hk' : s.cursor.current.kind = k := by rw [hs, hc.kind_current, hk]
  rw [yields_expressionAbove]
  constructor
  · rintro ⟨l, u, hl, hy⟩
    obtain ⟨x', hx', hl⟩ := yields_operand.1 hl
    rw [hk', hx] at hx'
    cases hx'
    obtain ⟨hn, rfl, rfl⟩ := (h l u).1 hl
    exact ⟨hn, hy⟩
  · rintro ⟨hn, hy⟩
    exact ⟨e, s.moveTo d, yields_operand.2 ⟨x, by rw [hk', hx], (h _ _).2 ⟨hn, rfl, rfl⟩⟩, hy⟩

/-- An operand of one token. -/
theorem determines_of_leaf {t : Token} {x : Parse Expr}
    (hx : ∀ expr, operand? expr t.kind = some x)
    (h : ∀ (s : Session) e' u, s.cursor.current = t → (x.Yields s e' u ↔ e' = e ∧ u = s)) :
    Determines limit (.expr .call e) (t :: after) 1 after := by
  refine determines_of_operand rfl fun c _ hc => ⟨c, hc.advance, fun levels s hs => ?_⟩
  subst hs
  refine ⟨x, hx _, fun e' u => ?_⟩
  rw [h s e' u hc.current_eq, Session.moveTo_cursor]
  constructor
  · exact fun hy => ⟨by omega, hy⟩
  · exact fun hy => hy.2

theorem Determines.unary {op : Token} (hop : op.kind = .bang ∨ op.kind = .minus) (hn : 0 < n)
    (h : Determines limit (.expr .unary e) before n after) :
    Determines limit (.expr .unary (.unary op op.literal e)) (op :: before) (1 + n) after := by
  refine determines_of_operand rfl fun c ha hc => ?_
  obtain ⟨d, hd, h⟩ := h.expressionOn hn ha hc.advance .unary (by decide)
    (Nat.not_lt.2 ha.1)
  refine ⟨d, hd, fun levels s hs => ?_⟩
  subst hs
  have hx : operand? (ExprLang.expressionOn limit levels) op.kind =
      some (Grammar.unary (ExprLang.expressionOn limit levels)) := by
    rcases hop with hop | hop <;> (rw [hop]; rfl)
  refine ⟨_, hx, fun e' t => ?_⟩
  rw [yields_unary, hc.current_eq]
  constructor
  · rintro ⟨r, hr, rfl⟩
    obtain ⟨hl, rfl, rfl⟩ := (h levels s.next r t rfl).1 hr
    exact ⟨by omega, rfl, rfl⟩
  · rintro ⟨hl, rfl, rfl⟩
    exact ⟨e, (h levels s.next _ _ rfl).2 ⟨by omega, rfl, rfl⟩, rfl⟩

/-- An expression between parentheses, one of which is current at the beginning. -/
theorem Determines.parenthesized {l r : Token} (hr : r.kind = .rparen) (hn : 0 < n)
    (h : Determines limit (.expr .lowest e) before n (r :: after)) {c : Cursor}
    (hc : c.On (l :: before)) :
    ∃ d : Cursor, d.advance.On after ∧ ∀ levels (s : Session) e' t, s.cursor = c →
      ((Grammar.grouped (ExprLang.expressionOn limit levels)).Yields s e' t ↔
        n ≤ levels ∧ e' = e ∧ t = s.moveTo d) := by
  have ha : Apart .lowest (headKind (r :: after)) := by
    rw [headKind_cons, hr]
    exact ⟨by decide, by decide⟩
  obtain ⟨d, hd, h⟩ := h.expressionOn hn ha hc.advance .lowest (by decide)
    (Nat.not_lt.2 ha.1)
  refine ⟨d.advance, hd.advance, fun levels s e' t hs => ?_⟩
  subst hs
  rw [yields_grouped]
  constructor
  · rintro ⟨u, hu, -, rfl⟩
    obtain ⟨hl, rfl, rfl⟩ := (h levels s.next e' u rfl).1 hu
    exact ⟨hl, rfl, rfl⟩
  · rintro ⟨hl, rfl, rfl⟩
    refine ⟨s.moveTo d, (h levels s.next _ _ rfl).2 ⟨hl, rfl, rfl⟩, ?_, rfl⟩
    rw [Session.cursor_moveTo, hd.kind_peek_of_advance]
    exact hr

theorem Determines.grouped {l r : Token} (hl : l.kind = .lparen) (hr : r.kind = .rparen)
    (hn : 0 < n) (h : Determines limit (.expr .lowest e) before n (r :: after)) :
    Determines limit (.expr .call e) (l :: before) (1 + n) after := by
  refine determines_of_operand hl fun c _ hc => ?_
  obtain ⟨d, hd, h⟩ := h.parenthesized hr hn hc
  refine ⟨d, hd, fun levels s hs => ⟨_, rfl, fun e' t => ?_⟩⟩
  rw [h levels s e' t hs, Nat.add_comm, Nat.add_le_add_iff_right]

section Conditional

variable {w l r : Token} {b : Block} (hw : w.kind = .ifWord) (hl : l.kind = .lparen)
  (hr : r.kind = .rparen) (hm : 0 < m)
  (hc : Determines limit (.expr .lowest e) before m (r :: mid)) (hmid : headKind mid = .lbrace)

include hl hr hm hc hmid

/-- An `if` up to its first block. -/
theorem Determines.yields_conditional {c : Cursor} (hs : c.On (w :: l :: before)) :
    ∃ d : Cursor, d.advance.On mid ∧ ∀ levels (s : Session) e' t, s.cursor = c →
      ((Grammar.conditional (ExprLang.expressionOn limit levels)).Yields s e' t ↔
        m ≤ levels ∧ ∃ b w', (Grammar.block (ExprLang.expressionOn limit levels)).Yields
          (s.moveTo d.advance) b w' ∧
          if w'.cursor.peek.kind = .elseWord then
            w'.next.cursor.peek.kind = .lbrace ∧
              ∃ a, (Grammar.block (ExprLang.expressionOn limit levels)).Yields w'.next.next a t ∧
                e' = .conditional w e b (some a)
          else e' = .conditional w e b none ∧ t = w') := by
  obtain ⟨d, hd, hc⟩ := hc.parenthesized hr hm hs.advance
  refine ⟨d, hd, fun levels s e' t hsc => ?_⟩
  subst hsc
  have hk : s.cursor.peek.kind = .lparen := hs.kind_peek.trans hl
  have hb : (s.moveTo d).cursor.peek.kind = .lbrace := hd.kind_peek_of_advance.trans hmid
  rw [Grammar.yields_conditional, hs.current_eq]
  constructor
  · rintro ⟨-, x, u, hx, hrp, -, hrest⟩
    obtain ⟨hlev, rfl, hu⟩ := (hc levels s.next x u.next rfl).1 (yields_grouped.2 ⟨u, hx, hrp, rfl⟩)
    rw [hu] at hrest
    exact ⟨hlev, hrest⟩
  · rintro ⟨hlev, hrest⟩
    obtain ⟨u, hx, hrp, hu⟩ :=
      yields_grouped.1 ((hc levels s.next e (s.moveTo d) rfl).2 ⟨hlev, rfl, rfl⟩)
    refine ⟨hk, e, u, hx, hrp, ?_, ?_⟩
    · rw [← hu]
      exact hb
    · rw [← hu]
      exact hrest

include hw

theorem Determines.conditional (hb : Determines limit (.block b) mid n after) :
    Determines limit (.expr .call (.conditional w e b none)) (w :: l :: before) (1 + max m n)
      after := by
  refine determines_of_operand hw fun c ha hs => ?_
  obtain ⟨d, hd, hc⟩ := hc.yields_conditional hl hr hm hmid hs
  obtain ⟨d', hd', hb⟩ := hb _ hd
  refine ⟨d', hd', fun levels s hsc => ⟨_, rfl, fun e' t => ?_⟩⟩
  have helse : (s.moveTo d').cursor.peek.kind ≠ .elseWord := by
    rw [Session.cursor_moveTo, hd'.kind_peek_of_advance]
    exact ha.2
  rw [hc levels s e' t hsc]
  constructor
  · rintro ⟨hlev, b', w', hy, hrest⟩
    obtain ⟨hlev', rfl, rfl⟩ := (hb levels _ b' w' rfl).1 hy
    rw [Session.moveTo_moveTo, if_neg helse] at hrest
    exact ⟨by omega, hrest⟩
  · rintro ⟨hlev, hrest⟩
    refine ⟨by omega, b, s.moveTo d', (hb levels _ _ _ rfl).2 ⟨by omega, rfl, rfl⟩, ?_⟩
    rw [if_neg helse]
    exact hrest

theorem Determines.conditionalElse {v : Token} {a : Block} {mid' : List Token} {k : Nat}
    (hv : v.kind = .elseWord) (hmid' : headKind mid' = .lbrace)
    (hb : Determines limit (.block b) mid n (v :: mid'))
    (ha : Determines limit (.block a) mid' k after) :
    Determines limit (.expr .call (.conditional w e b (some a))) (w :: l :: before)
      (1 + max m (max n k)) after := by
  refine determines_of_operand hw fun c _ hs => ?_
  obtain ⟨d, hd, hc⟩ := hc.yields_conditional hl hr hm hmid hs
  obtain ⟨d', hd', hb⟩ := hb _ hd
  obtain ⟨d'', hd'', ha⟩ := ha _ hd'.advance
  refine ⟨d'', hd'', fun levels s hsc => ⟨_, rfl, fun e' t => ?_⟩⟩
  have helse : (s.moveTo d').cursor.peek.kind = .elseWord := hd'.kind_peek_of_advance.trans hv
  have hbrace : (s.moveTo d').next.cursor.peek.kind = .lbrace :=
    hd'.advance.kind_peek_of_advance.trans hmid'
  rw [hc levels s e' t hsc]
  constructor
  · rintro ⟨hlev, b', w', hy, hrest⟩
    obtain ⟨hlev', rfl, rfl⟩ := (hb levels _ b' w' rfl).1 hy
    rw [Session.moveTo_moveTo, if_pos helse] at hrest
    obtain ⟨-, a', hy, rfl⟩ := hrest
    obtain ⟨hlev'', rfl, rfl⟩ := (ha levels _ a' t rfl).1 hy
    exact ⟨by omega, rfl, rfl⟩
  · rintro ⟨hlev, rfl, rfl⟩
    refine ⟨by omega, b, s.moveTo d', (hb levels _ _ _ rfl).2 ⟨by omega, rfl, rfl⟩, ?_⟩
    rw [if_pos helse]
    exact ⟨hbrace, a, (ha levels _ _ _ rfl).2 ⟨by omega, rfl, rfl⟩, rfl⟩

end Conditional

/-! ### Operations -/

theorem Determines.binary {op : Token} {p : Power} {r : Expr} (hop : Operator op.kind p)
    (hn : 0 < n) (hl : Determines limit (.expr p e) before m (op :: mid))
    (hr : Determines limit (.expr p.tighter r) mid n after) :
    Determines limit (.expr p (.binary op e op.literal r)) before (max m (1 + n)) after := by
  intro ha c hc
  have hp := hop.rank_lt
  have hpos := hop.rank_pos
  have hop' : Apart p (headKind (op :: mid)) := by
    rw [headKind_cons]
    refine ⟨Nat.le_of_eq (congrArg Power.rank hop.power_eq), fun he => ?_⟩
    rw [he] at hop
    cases hop
  have ht := Power.rank_le_rank_tighter (p := p) (by omega)
  obtain ⟨d, hd, hl⟩ := hl hop' c hc
  obtain ⟨d', hd', hr⟩ := hr.expressionOn hn ⟨Nat.le_trans ha.1 ht, ha.2⟩ hd.advance p
    (by omega) (Nat.not_lt.2 ha.1)
  refine ⟨d', hd', fun levels power s e' t hq hs => ?_⟩
  have hlt : power < (s.moveTo d).cursor.peek.kind.power := by
    have hk : (s.moveTo d).cursor.peek.kind.power = p := by
      rw [Session.cursor_moveTo, hd.kind_peek_of_advance, headKind_cons, hop.power_eq]
    rw [hk]
    exact Power.lt_of_rank_tighter_le (by omega) hp
  have hcur : (s.moveTo d).next.cursor.current = op := hd.current_eq
  rw [hl levels power s e' t (by omega) hs, yields_operations, if_pos hlt]
  simp only [yields_binary, hcur, hop.power_eq]
  constructor
  · rintro ⟨hlev, _, u, ⟨r', hr', rfl⟩, hrest⟩
    obtain ⟨hlev', rfl, rfl⟩ := (hr levels _ r' u rfl).1 hr'
    exact ⟨by omega, hrest⟩
  · rintro ⟨hlev, hrest⟩
    exact ⟨by omega, _, s.moveTo d', ⟨r, (hr levels _ _ _ rfl).2 ⟨by omega, rfl, rfl⟩, rfl⟩, hrest⟩

theorem Determines.looser {p : Power} (hpq : p < q)
    (h : Determines limit (.expr q e) before n after) :
    Determines limit (.expr p e) before n after := by
  have hr : p.rank < q.rank := hpq
  intro ha c hc
  obtain ⟨d, hd, h⟩ := h ⟨by have := ha.1; omega, ha.2⟩ c hc
  exact ⟨d, hd, fun levels power s e' t hp hs => h levels power s e' t (by omega) hs⟩

/-! ### Statements -/

theorem introduced?_eq_none {expr : Power → Parse Expr} {k : Kind} (h : k.opensExpr) :
    introduced? expr k = none := by
  cases k <;> first | rfl | exact absurd h (by decide)

theorem not_closesBlock_of_opensStmt {k : Kind} (h : k.opensStmt) : ¬ closesBlock k := by
  revert h
  cases k <;> decide

theorem separate_of_closesBlock {k : Kind} (h : closesBlock k) : k.Separate := by
  cases k <;> first | exact absurd h (by decide) | skip
  · exact Kind.separate_eof
  · exact Kind.separate_rbrace

/-- The value of a statement and the semicolon that may stand behind it. -/
theorem Determines.value (h : Determines limit (.expr .lowest e) before n mid) (hn : 0 < n)
    (he : Ends mid after) (ha : (headKind after).Separate) {c : Cursor} (hc : c.On before) :
    ∃ d : Cursor, d.advance.On after ∧ ∀ levels (s : Session) (f : Expr → Stmt) st t,
      s.cursor = c →
      ((∃ v u, (ExprLang.expressionOn limit levels .lowest).Yields s v u ∧ st = f v ∧
        t = behindSemicolon u) ↔ n ≤ levels ∧ st = f e ∧ t = s.moveTo d) := by
  have hmid : Apart .lowest (headKind mid) := by
    cases he with
    | semicolon ht =>
      rw [headKind_cons, ht]
      exact ⟨by decide, by decide⟩
    | bare hminus =>
      obtain ⟨-, helse, hlow⟩ := ha
      exact ⟨Nat.le_of_eq (congrArg Power.rank (hlow.resolve_left hminus)), helse⟩
  obtain ⟨d, hd, h⟩ := h.expressionOn hn hmid hc .lowest (by decide)
    (Nat.not_lt.2 hmid.1)
  have hend : ∃ d' : Cursor, d'.advance.On after ∧
      ∀ s : Session, behindSemicolon (s.moveTo d) = s.moveTo d' := by
    cases he with
    | semicolon ht =>
      refine ⟨d.advance, hd.advance, fun s => if_pos ?_⟩
      exact hd.kind_peek_of_advance.trans ht
    | bare =>
      refine ⟨d, hd, fun s => if_neg ?_⟩
      rw [Session.cursor_moveTo, hd.kind_peek_of_advance]
      exact ha.1
  obtain ⟨d', hd', hend⟩ := hend
  refine ⟨d', hd', fun levels s f st t hs => ?_⟩
  constructor
  · rintro ⟨v, u, hv, rfl, rfl⟩
    obtain ⟨hlev, rfl, rfl⟩ := (h levels s v u hs).1 hv
    exact ⟨hlev, rfl, hend s⟩
  · rintro ⟨hlev, rfl, rfl⟩
    exact ⟨e, s.moveTo d, (h levels s _ _ hs).2 ⟨hlev, rfl, rfl⟩, rfl, (hend s).symm⟩

theorem Determines.binding {w x a : Token} (hw : w.kind = .letWord) (hx : x.kind = .ident)
    (ha : a.kind = .assign) (hn : 0 < n) (h : Determines limit (.expr .lowest e) before n mid)
    (he : Ends mid after) :
    Determines limit (.stmt (.binding w ⟨x, x.literal⟩ e)) (w :: x :: a :: before) n after := by
  intro hsep c hc
  obtain ⟨d, hd, h⟩ := h.value hn he hsep hc.advance.advance.advance
  refine ⟨d, hd, fun levels s st t hs => ?_⟩
  subst hs
  have hx' : s.cursor.peek.kind = .ident := hc.kind_peek.trans hx
  have ha' : s.next.cursor.peek.kind = .assign := hc.advance.kind_peek.trans ha
  have hcur : s.cursor.peek = x := hc.advance.current_eq
  rw [yields_statement, hc.current_eq, hw]
  refine yields_binding.trans ?_
  rw [h levels s.next.next.next _ st t rfl, hc.current_eq, hcur]
  exact ⟨fun hy => hy.2.2, fun hy => ⟨hcur ▸ hx', ha', hy⟩⟩

theorem Determines.result {w : Token} (hw : w.kind = .returnWord) (hn : 0 < n)
    (h : Determines limit (.expr .lowest e) before n mid) (he : Ends mid after) :
    Determines limit (.stmt (.result w e)) (w :: before) n after := by
  intro hsep c hc
  obtain ⟨d, hd, h⟩ := h.value hn he hsep hc.advance
  refine ⟨d, hd, fun levels s st t hs => ?_⟩
  subst hs
  rw [yields_statement, hc.current_eq, hw]
  refine yields_result.trans ?_
  rw [h levels s.next _ st t rfl, hc.current_eq]
  rfl

theorem Determines.bareExpression {w : Token} (hw : w.kind.opensExpr) (hn : 0 < n)
    (h : Determines limit (.expr .lowest e) (w :: before) n mid) (he : Ends mid after) :
    Determines limit (.stmt (.expression w e)) (w :: before) n after := by
  intro hsep c hc
  obtain ⟨d, hd, h⟩ := h.value hn he hsep hc
  refine ⟨d, hd, fun levels s st t hs => ?_⟩
  subst hs
  rw [yields_statement, hc.current_eq, introduced?_eq_none hw]
  refine yields_bareExpression.trans ?_
  rw [h levels s _ st t rfl, hc.current_eq]

/-! ### Lists of statements and blocks -/

theorem determines_nil : Determines limit (.stmts []) after 0 after := by
  intro closes h _ hc _ c hs
  refine ⟨c, hs, fun levels s ss t hsc => ?_⟩
  subst hsc
  rw [yields_statements, hs.kind_current, if_pos hc, Session.moveTo_cursor]
  exact ⟨fun hy => ⟨Nat.zero_le _, hy⟩, fun hy => hy.2⟩

theorem Determines.cons {st : Stmt} {ss : List Stmt} (hbefore : (headKind before).opensStmt)
    (hmid : mid = after ∨ (headKind mid).opensStmt) (hst : Determines limit (.stmt st) before m mid)
    (hss : Determines limit (.stmts ss) mid n after) :
    Determines limit (.stmts (st :: ss)) before (max m n) after := by
  intro closes h hopen hc hsep c hs
  have hsep' : (headKind mid).Separate := by
    rcases hmid with rfl | hmid
    · exact hsep
    · exact Kind.separate_of_opensStmt hmid
  obtain ⟨d, hd, hst⟩ := hst hsep' c hs
  obtain ⟨d', hd', hss⟩ := hss closes h hopen hc hsep _ hd
  refine ⟨d', hd', fun levels s ss' t hsc => ?_⟩
  subst hsc
  rw [yields_statements, hs.kind_current, if_neg (hopen _ hbefore)]
  constructor
  · rintro ⟨st', u, ss', hy, hys, rfl⟩
    obtain ⟨hlev, rfl, rfl⟩ := (hst levels s st' u rfl).1 hy
    obtain ⟨hlev', rfl, rfl⟩ := (hss levels _ ss' t rfl).1 hys
    exact ⟨by omega, rfl, rfl⟩
  · rintro ⟨hlev, rfl, rfl⟩
    exact ⟨st, _, ss, (hst levels s _ _ rfl).2 ⟨by omega, rfl, rfl⟩,
      (hss levels _ _ _ rfl).2 ⟨by omega, rfl, rfl⟩, rfl⟩

/-- A block, up to what closes it. -/
theorem Determines.body {l : Token} {ss : List Stmt}
    (h : Determines limit (.stmts ss) before n after)
    (hc : closesBlock (headKind after)) {c : Cursor} (hs : c.On (l :: before)) :
    ∃ d : Cursor, d.On after ∧ ∀ levels (s : Session) b t, s.cursor = c →
      ((Grammar.block (ExprLang.expressionOn limit levels)).Yields s b t ↔
        n ≤ levels ∧ b = .mk l ss ∧ t = s.moveTo d) := by
  obtain ⟨d, hd, h⟩ := h closesBlock rfl (fun _ => not_closesBlock_of_opensStmt) hc
    (separate_of_closesBlock hc) _ hs.advance
  refine ⟨d, hd, fun levels s b t hsc => ?_⟩
  subst hsc
  rw [yields_block, hs.current_eq]
  constructor
  · rintro ⟨ss', hy, rfl⟩
    obtain ⟨hlev, rfl, rfl⟩ := (h levels s.next ss' t rfl).1 hy
    exact ⟨hlev, rfl, rfl⟩
  · rintro ⟨hlev, rfl, rfl⟩
    exact ⟨ss, (h levels s.next _ _ rfl).2 ⟨hlev, rfl, rfl⟩, rfl⟩

end

/-! ### All forms -/

/-- A derivation says what the parse of its form yields, and how many levels it takes. -/
theorem determines_of_derives {limit : Nat} {f : Form} {before after : List Token} {n : Nat}
    (h : Derives f before n after) : Determines limit f before n after := by
  induction h with
  | ident ht =>
    refine determines_of_leaf (fun _ => by rw [ht]; rfl) fun s e' u hs => ?_
    rw [yields_ident, hs]
  | number ht hk =>
    refine determines_of_leaf (fun _ => by rw [ht]; rfl) fun s e' u hs => ?_
    rw [yields_number, hs, numeral_iff.1 hk]
    simp
  | truth ht =>
    refine determines_of_leaf (fun _ => by rw [ht]; rfl) fun s e' u hs => ?_
    rw [yields_boolean, hs, Token.is, ht]
    rfl
  | falsity ht =>
    refine determines_of_leaf (fun _ => by rw [ht]; rfl) fun s e' u hs => ?_
    rw [yields_boolean, hs, Token.is, ht]
    rfl
  | grouped hl hr he ih => exact ih.grouped hl hr he.pos
  | conditional hw hl hr hc hb ihc ihb => exact ihc.conditional hw hl hr hc.pos hb.begins ihb
  | conditionalElse hw hl hr hs hc hb ha ihc ihb iha =>
    exact ihc.conditionalElse hw hl hr hc.pos hb.begins hs ha.begins ihb iha
  | unary hop he ih => exact ih.unary hop he.pos
  | binary hop _ hr ihl ihr => exact ihl.binary hop hr.pos ihr
  | looser hpq _ ih => exact ih.looser hpq
  | binding hw hx ha hv he ih => exact ih.binding hw hx ha hv.pos he
  | result hw hv he ih => exact ih.result hw hv.pos he
  | expression hv he ih => exact ih.bareExpression hv.begins hv.pos he
  | nil => exact determines_nil
  | cons hst hss ihst ihss => exact ihst.cons hst.begins hss.begins ihss
  | closed hl hr hss ih =>
    intro c hs
    have hc : closesBlock .rbrace := rfl
    rw [← hr] at hc
    obtain ⟨d, hd, h⟩ := ih.body hc hs
    exact ⟨d, hd.advance, h⟩
  | unclosed hl hss ih =>
    intro c hs
    obtain ⟨d, hd, h⟩ := ih.body rfl hs
    exact ⟨d, hd.advance_tail, h⟩

end ExprLang.Grammar
