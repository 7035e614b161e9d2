import ExprLang.Parser
import ExprLang.Proofs.Parsing.Yields

/-!
# What each form yields

One lemma for each parse of the grammar: when it yields something, and what.  The two loops have an
equation each for what they make of a session (`run_operations`, `run_statements`): one round, and
the same loop behind it.
-/

namespace ExprLang.Grammar

open Parse Walk

variable {expr : Power → Parse Expr} {s t : Session}

/-! ### Operations -/

/-- Either no operation follows that belongs to the expression, or one is read and then others. -/
theorem run_operations (power : Power) (left : Expr) (s : Session) :
    (operations expr power left).run s =
      if power < s.cursor.peek.kind.power then
        (do let l ← binary expr left; operations expr power l : Parse Expr).run s.next
      else (.ok left, s) := by
  unfold operations
  rw [Parse.run_mk, run_loop]
  split
  · rename_i hp
    have hn : nextOperation? expr power (.ok left) s =
        some (do advance; (binary expr left).attempt) := if_pos hp
    rw [loopRun_some hn]
    have hr : (do advance; (binary expr left).attempt : Walk _).run s =
        (binary expr left).run s.next := rfl
    rw [hr, Parse.run_bind]
    rcases (binary expr left).run s.next with ⟨d | l, t⟩
    · exact loopRun_none rfl
    · rfl
  · rename_i hp
    exact loopRun_none (if_neg hp)

/-- The same as an equation of parses. -/
theorem operations_eq (power : Power) (left : Expr) :
    operations expr power left = (do
      let t ← Walk.peek
      if power < t.kind.power then
        Walk.advance
        let l ← binary expr left
        operations expr power l
      else return left) := by
  refine Parse.ext fun s => (run_operations power left s).trans ?_
  rw [run_peek_bind]
  split <;> rfl

theorem yields_operations {power : Power} {left e : Expr} :
    (operations expr power left).Yields s e t ↔
      if power < s.cursor.peek.kind.power then
        ∃ l u, (binary expr left).Yields s.next l u ∧ (operations expr power l).Yields u e t
      else e = left ∧ t = s := by
  unfold Parse.Yields
  rw [run_operations]
  split
  · exact Parse.yields_bind (s := s.next)
  · exact Parse.yields_pure

/-- An expression with nothing behind it that belongs to it is what it is. -/
theorem yields_operations_stop {power : Power} {left e : Expr}
    (h : ¬ power < s.cursor.peek.kind.power) :
    (operations expr power left).Yields s e t ↔ e = left ∧ t = s := by
  rw [yields_operations, if_neg h]

theorem yields_binary {left e : Expr} :
    (binary expr left).Yields s e t ↔
      ∃ r, (expr s.cursor.current.kind.power).Yields s.next r t ∧
        e = .binary s.cursor.current left s.cursor.current.literal r := by
  rw [binary, Parse.yields_current_bind, Parse.yields_advance_bind, Parse.yields_bind_return]

theorem yields_expressionAbove {power : Power} {e : Expr} :
    (expressionAbove expr power).Yields s e t ↔
      ∃ l u, (operand expr).Yields s l u ∧ (operations expr power l).Yields u e t :=
  Parse.yields_bind

/-! ### Operands -/

theorem run_ident (s : Session) :
    Grammar.ident.run s = (.ok (.ident ⟨s.cursor.current, s.cursor.current.literal⟩), s) := rfl

theorem run_boolean (s : Session) :
    boolean.run s =
      (.ok (.boolean s.cursor.current (s.cursor.current.is .trueWord)), s) := rfl

theorem yields_ident {e : Expr} :
    Grammar.ident.Yields s e t ↔
      e = .ident ⟨s.cursor.current, s.cursor.current.literal⟩ ∧ t = s := by
  simp [ident]

theorem yields_number {e : Expr} :
    Grammar.number.Yields s e t ↔
      ∃ n, Decimal.ofLiteral? s.cursor.current.literal = some n ∧
        e = .number s.cursor.current n ∧ t = s := by
  unfold number
  rw [Parse.yields_current_bind]
  cases Decimal.ofLiteral? s.cursor.current.literal with
  | none => simp
  | some n => simp

theorem yields_boolean {e : Expr} :
    Grammar.boolean.Yields s e t ↔
      e = .boolean s.cursor.current (s.cursor.current.is .trueWord) ∧ t = s := by
  simp [boolean]

theorem yields_unary {e : Expr} :
    (unary expr).Yields s e t ↔
      ∃ r, (expr .unary).Yields s.next r t ∧
        e = .unary s.cursor.current s.cursor.current.literal r := by
  rw [unary, Parse.yields_current_bind, Parse.yields_advance_bind, Parse.yields_bind_return]

theorem yields_grouped {e : Expr} :
    (grouped expr).Yields s e t ↔
      ∃ u, (expr .lowest).Yields s.next e u ∧ u.cursor.peek.kind = .rparen ∧ t = u.next := by
  rw [grouped, Parse.yields_advance_bind, Parse.yields_bind]
  simp only [Parse.yields_expect_bind, Parse.yields_pure]
  constructor
  · rintro ⟨_, u, he, hk, rfl, rfl⟩
    exact ⟨u, he, hk, rfl⟩
  · rintro ⟨u, he, hk, rfl⟩
    exact ⟨e, u, he, hk, rfl, rfl⟩

/-- What starts no expression yields none. -/
theorem yields_operand {e : Expr} :
    (operand expr).Yields s e t ↔
      ∃ x, operand? expr s.cursor.current.kind = some x ∧ x.Yields s e t := by
  unfold operand
  rw [Parse.yields_current_bind]
  cases operand? expr s.cursor.current.kind with
  | none => simp
  | some x => simp

/-! ### Statements -/

def behindSemicolon (s : Session) : Session :=
  if s.cursor.peek.kind = .semicolon then s.next else s

theorem yields_skipSemicolon {a : Unit} :
    skipSemicolon.Yields s a t ↔ t = behindSemicolon s := by
  unfold skipSemicolon behindSemicolon
  rw [Walk.yields_peek_bind]
  split <;> simp

/-- The value of a statement and the semicolon that may stand behind it. -/
theorem yields_value {f : Expr → Stmt} {st : Stmt} :
    (do let v ← expr .lowest; skipSemicolon; return f v : Parse Stmt).Yields s st t ↔
      ∃ v u, (expr .lowest).Yields s v u ∧ st = f v ∧ t = behindSemicolon u := by
  simp only [Parse.yields_bind, Parse.yields_lift, yields_skipSemicolon, Parse.yields_pure]
  constructor
  · rintro ⟨v, u, hv, _, _, rfl, rfl, rfl⟩
    exact ⟨v, u, hv, rfl, rfl⟩
  · rintro ⟨v, u, hv, rfl, rfl⟩
    exact ⟨v, u, hv, (), _, rfl, rfl, rfl⟩

theorem yields_binding {st : Stmt} :
    (binding expr).Yields s st t ↔
      s.cursor.peek.kind = .ident ∧ s.next.cursor.peek.kind = .assign ∧
        ∃ v u, (expr .lowest).Yields s.next.next.next v u ∧
          st = .binding s.cursor.current ⟨s.cursor.peek, s.cursor.peek.literal⟩ v ∧
          t = behindSemicolon u := by
  simp only [binding, Parse.yields_current_bind, Parse.yields_expect_bind,
    Parse.yields_advance_bind, yields_value]
  rfl

theorem yields_result {st : Stmt} :
    (result expr).Yields s st t ↔
      ∃ v u, (expr .lowest).Yields s.next v u ∧ st = .result s.cursor.current v ∧
        t = behindSemicolon u := by
  rw [result, Parse.yields_current_bind, Parse.yields_advance_bind, yields_value]

theorem yields_bareExpression {st : Stmt} :
    (bareExpression expr).Yields s st t ↔
      ∃ v u, (expr .lowest).Yields s v u ∧ st = .expression s.cursor.current v ∧
        t = behindSemicolon u := by
  rw [bareExpression, Parse.yields_current_bind, yields_value]

theorem yields_statement {st : Stmt} :
    (statement expr).Yields s st t ↔
      ((introduced? expr s.cursor.current.kind).getD (bareExpression expr)).Yields s st t := by
  rw [statement, Parse.yields_current_bind]

/-! ### Lists of statements -/

section Statements

variable {closes : Kind → Bool} {h : closes .eof}

/-- Statements are put in front of those that were read before. -/
theorem loopRun_nextStatement? (uses : UsesUp (nextStatement? expr closes)) (before : List Stmt)
    (s : Session) :
    loopRun (nextStatement? expr closes) uses before s =
      ((loopRun (nextStatement? expr closes) uses [] s).1 ++ before,
        (loopRun (nextStatement? expr closes) uses [] s).2) := by
  induction hn : s.cursor.size using Nat.strongRecOn generalizing before s with
  | ind n ih =>
    subst hn
    by_cases hc : closes s.cursor.current.kind
    · have hs : ∀ b, nextStatement? expr closes b s = none := fun _ => if_pos hc
      rw [loopRun_none (hs before), loopRun_none (hs [])]
      rfl
    · have hs : ∀ b, nextStatement? expr closes b s = some (do
          let stmt? ← recorded (statement expr)
          advance
          return stmt?.toList ++ b) := fun _ => if_neg hc
      obtain ⟨o, u, hx⟩ : ∃ o u, ∀ b, (do
          let stmt? ← recorded (statement expr)
          advance
          return stmt?.toList ++ b : Walk (List Stmt)).run s = (Option.toList o ++ b, u) :=
        ⟨_, _, fun _ => rfl⟩
      have hlt := uses [] s _ (hs [])
      rw [hx] at hlt
      rw [loopRun_some (hs before), loopRun_some (hs []), hx, hx, List.append_nil,
        ih _ hlt (o.toList ++ before) u rfl, ih _ hlt o.toList u rfl, List.append_assoc]

/-- Either the current token closes the list, or a statement is tried and the list goes on behind
it. -/
theorem run_statements (s : Session) :
    (statements expr closes h).run s =
      if closes s.cursor.current.kind then ([], s)
      else
        let r := (recorded (statement expr)).run s
        let q := (statements expr closes h).run r.2.next
        (r.1.toList ++ q.1, q.2) := by
  unfold statements
  simp only [Walk.run_bind, run_loop, Walk.run_pure]
  split
  · rename_i hc
    rw [loopRun_none (if_pos hc)]
    rfl
  · rename_i hc
    rw [loopRun_some (if_neg hc)]
    simp only [Walk.run_bind, Walk.run_advance, Walk.run_pure]
    rw [loopRun_nextStatement?, List.append_nil, List.reverse_append]
    have ho : ∀ o : Option Stmt, o.toList.reverse = o.toList := by
      intro o
      cases o <;> rfl
    rw [ho]
    rfl

/-- The same as an equation of walks. -/
theorem statements_eq :
    statements expr closes h = (do
      let t ← Walk.current
      if closes t.kind then return []
      else
        let stmt? ← recorded (statement expr)
        advance
        let rest ← statements expr closes h
        return stmt?.toList ++ rest) := by
  refine Walk.ext fun s => (run_statements s).trans ?_
  rw [Walk.run_bind, run_current]
  split <;> rfl

/-- Behind a statement that is tried, less of the source is left than before it. -/
theorem size_next_statement_lt (h : closes .eof) {s : Session}
    (hc : ¬ closes s.cursor.current.kind) :
    ((recorded (statement expr)).run s).2.next.cursor.size < s.cursor.size := by
  refine Cursor.Ahead.size_advance_lt ?_ ((recorded (statement expr)).ahead s)
  intro he
  rw [he] at hc
  exact hc h

theorem yields_statements {ss : List Stmt} :
    (statements expr closes h).Yields s ss t ↔
      if closes s.cursor.current.kind then ss = [] ∧ t = s
      else ∃ st u ss', (statement expr).Yields s st u ∧
        (statements expr closes h).Yields u.next ss' t ∧ ss = st :: ss' := by
  unfold Walk.Yields
  rw [run_statements]
  split
  · exact Walk.yields_pure
  · change Walk.Yields (do
      let stmt? ← recorded (statement expr)
      advance
      let rest ← statements expr closes h
      return stmt?.toList ++ rest : Walk (List Stmt)) s ss t ↔ _
    rw [Walk.yields_bind]
    constructor
    · rintro ⟨_, u, hr, hq⟩
      obtain ⟨st, rfl, hst⟩ := Parse.yields_recorded.1 hr
      rw [Walk.yields_advance_bind, Walk.yields_bind_return] at hq
      obtain ⟨ss', hss, rfl⟩ := hq
      exact ⟨st, u, ss', hst, hss, rfl⟩
    · rintro ⟨st, u, ss', hst, hss, rfl⟩
      refine ⟨_, u, Parse.yields_recorded.2 ⟨st, rfl, hst⟩, ?_⟩
      rw [Walk.yields_advance_bind, Walk.yields_bind_return]
      exact ⟨ss', hss, rfl⟩

end Statements

theorem run_block (s : Session) :
    (block expr).run s =
      (.mk s.cursor.current ((statements expr closesBlock rfl).run s.next).1,
        ((statements expr closesBlock rfl).run s.next).2) := rfl

theorem run_program (s : Session) :
    (program expr).run s =
      (⟨((statements expr (· == .eof) rfl).run s).1⟩,
        ((statements expr (· == .eof) rfl).run s).2) := rfl

theorem yields_block {b : Block} :
    (block expr).Yields s b t ↔
      ∃ ss, (statements expr closesBlock rfl).Yields s.next ss t ∧
        b = .mk s.cursor.current ss := by
  rw [block, Walk.yields_current_bind, Walk.yields_advance_bind, Walk.yields_bind_return]

theorem yields_program {p : Program} :
    (program expr).Yields s p t ↔
      (statements expr (· == .eof) rfl).Yields s p.statements t := by
  rw [program, Walk.yields_bind_return]
  constructor
  · rintro ⟨ss, hss, rfl⟩
    exact hss
  · exact fun hss => ⟨_, hss, rfl⟩

/-- Behind the first branch: either no `else` follows, or a second branch does. -/
theorem yields_conditional {e : Expr} :
    (conditional expr).Yields s e t ↔
      s.cursor.peek.kind = .lparen ∧
        ∃ c u, (expr .lowest).Yields s.next.next c u ∧ u.cursor.peek.kind = .rparen ∧
          u.next.cursor.peek.kind = .lbrace ∧ ∃ b w, (block expr).Yields u.next.next b w ∧
            if w.cursor.peek.kind = .elseWord then
              w.next.cursor.peek.kind = .lbrace ∧ ∃ a, (block expr).Yields w.next.next a t ∧
                e = .conditional s.cursor.current c b (some a)
            else e = .conditional s.cursor.current c b none ∧ t = w := by
  rw [conditional, Parse.yields_current_bind, Parse.yields_expect_bind, Parse.yields_advance_bind,
    Parse.yields_bind]
  refine and_congr_right fun _ => exists_congr fun c => exists_congr fun u => ?_
  rw [Parse.yields_expect_bind, Parse.yields_expect_bind, Parse.yields_bind]
  refine and_congr_right fun _ => and_congr_right fun _ => and_congr_right fun _ =>
    exists_congr fun b => exists_congr fun w => ?_
  rw [Parse.yields_lift, Parse.yields_peek_bind]
  refine and_congr_right fun _ => ?_
  split
  · rw [Parse.yields_advance_bind, Parse.yields_expect_bind, Parse.yields_bind_return]
    simp only [Parse.yields_lift]
  · exact Parse.yields_pure

/-! ### Levels -/

theorem yields_expressionOn_zero {limit : Nat} {power : Power} {e : Expr} :
    ¬ (expressionOn limit 0 power).Yields s e t := by
  rw [expressionOn, Parse.yields_current_bind]
  exact Parse.yields_failAt

theorem yields_expressionOn_succ {limit levels : Nat} {power : Power} {e : Expr} :
    (expressionOn limit (levels + 1) power).Yields s e t ↔
      ∃ u, (expressionAbove (expressionOn limit levels) power).Yields s.deeper e u ∧
        t = u.shallower := Parse.yields_nested

end ExprLang.Grammar
