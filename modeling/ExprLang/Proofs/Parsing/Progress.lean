import ExprLang.Proofs.Parsing.Depth
import ExprLang.Proofs.Parsing.Lookahead

/-!
# Reading comes to an end

`Cursor.unread` lists the tokens that a cursor has before it.  A step drops the current one of them,
and nothing puts one back.  So a statement and the step behind it leave fewer tokens unread, every
round of a loop does, and an expression calls on others only where fewer are left
(`run_expressionAbove_congr`).  That loops and calls end is said without the measure that defines
them: unrolled as often as there are tokens, and once more, they do not come to what stands in for
the rest (`loopRun_eq_unrolled`, `run_unrolledExpression`).
-/

namespace ExprLang

open Grammar Parse Walk

/-! ### Unread tokens -/

namespace Scanner

/-- The next token is the first of those that are left, unless that is the end token. -/
theorem filter_next_tokens (s : Scanner) :
    (s.next.1 :: s.next.2.tokens).filter (·.kind ≠ .eof) =
      s.tokens.filter (·.kind ≠ .eof) := by
  rw [filter_tokens, upcoming_eq]
  split
  · rename_i hk
    have hend : s.next.2.upcoming = [] := by
      rw [upcoming_eq, next_next_of_eof hk, if_pos hk]
    rw [List.filter_cons_of_neg (by simp [hk]), filter_tokens, hend]
  · rename_i hk
    rw [List.filter_cons_of_pos (by simp [hk]), filter_tokens]

end Scanner

namespace Cursor

variable {c d : Cursor}

/-- The tokens from the current one on, without the end token. -/
def unread (c : Cursor) : List Token :=
  (c.current :: c.peek :: c.scanner.tokens).filter (·.kind ≠ .eof)

/-- A step drops the current token. -/
theorem unread_eq (c : Cursor) :
    c.unread = [c.current].filter (·.kind ≠ .eof) ++ c.advance.unread := by
  have hpeek : (c.peek :: c.scanner.tokens).filter (·.kind ≠ .eof) = c.advance.unread := by
    show _ = (c.peek :: c.scanner.next.1 :: c.scanner.next.2.tokens).filter (·.kind ≠ .eof)
    rw [List.filter_cons, List.filter_cons, c.scanner.filter_next_tokens]
  rw [← hpeek, ← List.filter_append]
  rfl

theorem length_unread_advance (h : c.current.kind ≠ .eof) :
    c.unread.length = c.advance.unread.length + 1 := by
  rw [unread_eq, List.filter_cons_of_pos (by simp [h])]
  simp

theorem Ahead.unread_suffix (h : c.Ahead d) : d.unread <:+ c.unread := by
  obtain ⟨n, rfl⟩ := h
  induction n with
  | zero => exact List.suffix_rfl
  | succ n ih =>
    refine List.IsSuffix.trans ?_ ih
    rw [after_succ, (c.after n).unread_eq]
    exact List.suffix_append ..

theorem Ahead.length_unread_le (h : c.Ahead d) : d.unread.length ≤ c.unread.length :=
  h.unread_suffix.length_le

/-- From a token on, at least one step leaves fewer tokens unread. -/
theorem Ahead.length_unread_advance_lt (h : c.Ahead d) (hk : c.current.kind ≠ .eof) :
    d.advance.unread.length < c.unread.length := by
  obtain ⟨n, rfl⟩ := h
  rw [length_unread_advance hk, ← after_succ, Nat.add_comm, after_add]
  exact Nat.lt_succ_of_le (Ahead.length_unread_le ⟨n, rfl⟩)

/-- Where less of the source is left, the current token has been read. -/
theorem Ahead.length_unread_lt (h : c.Ahead d) (hk : c.current.kind ≠ .eof)
    (hsize : d.size < c.size) : d.unread.length < c.unread.length := by
  obtain ⟨n, rfl⟩ := h
  cases n with
  | zero => exact absurd hsize (Nat.lt_irrefl _)
  | succ n => exact Ahead.length_unread_advance_lt ⟨n, rfl⟩ hk

end Cursor

/-! ### Loops -/

namespace Walk

variable {α : Type}

/-- The first `n` looks at whether there is a next round of a loop, and the rounds that follow them;
`stuck` stands in for all others. -/
def unrolled (next? : α → Session → Option (Walk α)) (stuck : α → Session → α × Session) :
    (n : Nat) → α → Session → α × Session
  | 0, a, s => stuck a s
  | n + 1, a, s =>
    match next? a s with
    | none => (a, s)
    | some x => unrolled next? stuck n (x.run s).1 (x.run s).2

/-- A loop of which every round leaves fewer tokens unread has fewer rounds than tokens. -/
theorem loopRun_eq_unrolled {next? : α → Session → Option (Walk α)} (uses : UsesUp next?)
    (h : ∀ a s x, next? a s = some x →
      (x.run s).2.cursor.unread.length < s.cursor.unread.length)
    (stuck : α → Session → α × Session) {n : Nat} {a : α} {s : Session}
    (hn : s.cursor.unread.length < n) :
    unrolled next? stuck n a s = loopRun next? uses a s := by
  induction n generalizing a s with
  | zero => exact absurd hn (Nat.not_lt_zero _)
  | succ n ih =>
    rw [unrolled]
    cases hx : next? a s with
    | none => rw [loopRun_none hx]
    | some x =>
      have hlt := h a s x hx
      rw [loopRun_some hx]
      exact ih (by omega)

end Walk

namespace Grammar

variable {expr expr' : Power → Parse Expr} {closes : Kind → Bool}

/-- A statement, whether it fails or not, and the step behind it leave fewer tokens unread. -/
theorem length_unread_statement_lt (expr : Power → Parse Expr) {s : Session}
    (hk : s.cursor.current.kind ≠ .eof) :
    ((recorded (statement expr)).run s).2.next.cursor.unread.length <
      s.cursor.unread.length :=
  ((recorded (statement expr)).ahead s).length_unread_advance_lt hk

theorem length_unread_nextStatement?_lt (h : closes .eof) {before : List Stmt} {s : Session}
    {x : Walk (List Stmt)} (hx : nextStatement? expr closes before s = some x) :
    (x.run s).2.cursor.unread.length < s.cursor.unread.length := by
  unfold nextStatement? at hx
  split at hx
  · exact absurd hx nofun
  · rename_i hs
    cases hx
    exact length_unread_statement_lt expr fun he => hs (he ▸ h)

/-- The right side of an operation is read behind its operator. -/
theorem ahead_run_binary (expr : Power → Parse Expr) (left : Expr) (s : Session) :
    s.next.cursor.Ahead ((binary expr left).run s).2.cursor := by
  rw [binary, run_current_bind, run_advance_bind]
  exact Walk.ahead (Parse.attempt _) s.next

theorem length_unread_nextOperation?_lt {power : Power} {r : Except Diagnostic Expr} {s : Session}
    {x : Walk (Except Diagnostic Expr)} (hx : nextOperation? expr power r s = some x) :
    (x.run s).2.cursor.unread.length < s.cursor.unread.length := by
  unfold nextOperation? at hx
  split at hx
  · exact absurd hx nofun
  · split at hx
    · rename_i left hp
      cases hx
      have hoperator : s.next.cursor.current.kind ≠ .eof := Kind.ne_eof_of_lt_power hp
      have hright := (ahead_run_binary expr left s.next).length_unread_le
      have hread := Cursor.length_unread_advance hoperator
      have hstep := (Cursor.Ahead.advance s.cursor).length_unread_le
      show ((binary expr left).run s.next).2.cursor.unread.length < _
      simp only [Session.cursor_next] at hright hread
      omega
    · exact absurd hx nofun

/-- A list of statements has fewer rounds than tokens are unread. -/
theorem run_statements_unrolled (h : closes .eof)
    (stuck : List Stmt → Session → List Stmt × Session) {n : Nat} {s : Session}
    (hn : s.cursor.unread.length < n) :
    (statements expr closes h).run s =
      ((unrolled (nextStatement? expr closes) stuck n [] s).1.reverse,
        (unrolled (nextStatement? expr closes) stuck n [] s).2) := by
  rw [loopRun_eq_unrolled (usesUp_nextStatement? expr h)
    (fun _ _ _ hx => length_unread_nextStatement?_lt h hx) stuck hn]
  rfl

/-- An expression has fewer operations than tokens are unread. -/
theorem run_operations_unrolled
    (stuck : Except Diagnostic Expr → Session → Except Diagnostic Expr × Session) {n : Nat}
    {power : Power} {left : Expr} {s : Session} (hn : s.cursor.unread.length < n) :
    (operations expr power left).run s =
      unrolled (nextOperation? expr power) stuck n (.ok left) s := by
  rw [loopRun_eq_unrolled (usesUp_nextOperation? expr power)
    (fun _ _ _ hx => length_unread_nextOperation?_lt hx) stuck hn]
  rfl

/-- A list of statements ends on a token that closes it. -/
theorem closes_statements (expr : Power → Parse Expr) (h : closes .eof) (s : Session) :
    closes ((statements expr closes h).run s).2.cursor.current.kind := by
  rw [run_statements_rounds]
  fun_induction rounds expr closes h s with
  | case1 s hc => exact hc
  | case2 s hc ih => exact ih

theorem kind_program (expr : Power → Parse Expr) (s : Session) :
    ((program expr).run s).2.cursor.current.kind = .eof := by
  have hcloses := @closes_statements (· == .eof) expr eof_closes_program s
  rw [run_program]
  exact eq_of_beq hcloses

theorem kind_block (expr : Power → Parse Expr) (s : Session) :
    ((block expr).run s).2.cursor.current.kind = .rbrace ∨
      ((block expr).run s).2.cursor.current.kind = .eof := by
  have hcloses : closesBlock ((block expr).run s).2.cursor.current.kind := by
    rw [run_block]
    exact closes_statements expr rfl s.next
  exact (Bool.or_eq_true_iff.1 hcloses).imp eq_of_beq eq_of_beq

/-! ### Calls -/

/-- What an expression reads depends on the expressions that it calls where fewer tokens are unread,
and on no others. -/
theorem run_expressionAbove_congr {s : Session} {power : Power}
    (h : ∀ p t, t.cursor.unread.length < s.cursor.unread.length →
      (expr p).run t = (expr' p).run t) :
    (expressionAbove expr power).run s = (expressionAbove expr' power).run s := by
  by_cases hk : s.cursor.current.kind = .eof
  · -- the end token starts no operand
    have hfail : ∀ expr : Power → Parse Expr, (operand expr).run s =
        (.error ⟨.noOperand .eof, s.cursor.current.position⟩, s) := by
      intro expr
      rw [operand, run_current_bind, hk]
      rfl
    rw [expressionAbove, expressionAbove, Parse.run_bind, Parse.run_bind, hfail, hfail]
  · let ahead := Simulation.equal (fun t => s.cursor.Ahead t.cursor)
      (fun ht => ht.trans (.advance _)) id
    have hcalls : ahead.Calls expr expr' s.cursor.size := by
      rintro p t _ ⟨rfl, ht⟩ hsize
      rw [h p t (ht.length_unread_lt hk hsize)]
      exact Simulation.agree_self (ht.trans ((expr' p).attempt.ahead t))
    have hagree := hcalls.expressionAbove (p := power) ⟨rfl, .refl _⟩ (Nat.le_refl _)
    exact hagree.eq Expr.eq_of_mapTokens_id

end Grammar

/-- An expression on a level of its own, if there is one left, with `expr` for those that it
calls. -/
def onLevel (limit : Nat) (expr : Power → Parse Expr) (power : Power) : Parse Expr := do
  if limit ≤ (← Walk.depth) then Parse.failAt (← Walk.current) (.tooDeep limit)
  else Parse.nested (expressionAbove expr power)

theorem run_onLevel (limit : Nat) (expr : Power → Parse Expr) (power : Power) (s : Session) :
    (onLevel limit expr power).run s =
      if limit ≤ s.depth then (.error ⟨.tooDeep limit, s.cursor.current.position⟩, s)
      else (Parse.nested (expressionAbove expr power)).run s := by
  simp only [onLevel, Parse.run_bind, run_lift, run_depth]
  by_cases h : limit ≤ s.depth
  · rw [if_pos h, if_pos h]
    rfl
  · rw [if_neg h, if_neg h]

/-- An expression with the calls of expressions by one another, up to `n` of them inside each other;
`stuck` stands in for all others. -/
def unrolledExpression (limit : Nat) (stuck : Power → Parse Expr) : (n : Nat) → Power → Parse Expr
  | 0 => stuck
  | n + 1 => onLevel limit (unrolledExpression limit stuck n)

/-- Not as many expressions call one another as tokens are unread, whatever the limit is. -/
theorem run_unrolledExpression (limit : Nat) (stuck : Power → Parse Expr) {n : Nat} {power : Power}
    {s : Session} (hn : s.cursor.unread.length < n) :
    (unrolledExpression limit stuck n power).run s = (expressionWithin limit power).run s := by
  induction n generalizing power s with
  | zero => exact absurd hn (Nat.not_lt_zero _)
  | succ n ih =>
    have hbody : (expressionAbove (unrolledExpression limit stuck n) power).run s.deeper =
        (expressionAbove (expressionWithin limit) power).run s.deeper := by
      refine run_expressionAbove_congr fun p t ht => ih ?_
      rw [Session.cursor_deeper] at ht
      omega
    rw [unrolledExpression, run_onLevel, run_expressionWithin_eq, Parse.run_nested_deeper,
      Parse.run_nested_deeper, hbody]

/-! ### The end of reading -/

/-- **Reading ends, because it uses up tokens.**  In whatever state a session is: unless it is at
the end, a statement and the step behind it leave fewer tokens unread.  The loop over statements,
the one over operations and the calls of expressions by one another go on less often than there are
unread tokens, so it does not matter what stands in for the rest.  A program ends on the end token,
and a block on its brace or on the end token. -/
theorem reading_ends :
    (∀ s : Session, s.cursor.current.kind ≠ .eof →
      (Operation.runAll [.recordedStatement, .advance] s).cursor.unread.length <
        s.cursor.unread.length) ∧
    (∀ expr closes (h : closes .eof) stuck n (s : Session), s.cursor.unread.length < n →
      (statements expr closes h).run s =
        ((unrolled (nextStatement? expr closes) stuck n [] s).1.reverse,
          (unrolled (nextStatement? expr closes) stuck n [] s).2)) ∧
    (∀ expr power left stuck n (s : Session), s.cursor.unread.length < n →
      (operations expr power left).run s =
        unrolled (nextOperation? expr power) stuck n (.ok left) s) ∧
    (∀ limit power stuck n (s : Session), s.cursor.unread.length < n →
      (expressionWithin limit power).run s = (unrolledExpression limit stuck n power).run s) ∧
    (∀ s, (Operation.program.run s).cursor.current.kind = .eof) ∧
    ∀ s, (Operation.block.run s).cursor.current.kind = .rbrace ∨
      (Operation.block.run s).cursor.current.kind = .eof := by
  refine ⟨fun s hk => ?_, fun expr closes h stuck n s hn => ?_,
    fun expr power left stuck n s hn => ?_, fun limit power stuck n s hn => ?_, fun s => ?_,
    fun s => ?_⟩
  · exact length_unread_statement_lt expression hk
  · exact run_statements_unrolled h stuck hn
  · exact run_operations_unrolled stuck hn
  · exact (run_unrolledExpression limit stuck hn).symm
  · exact kind_program expression s
  · exact kind_block expression s

/-- In front of a block that is not closed, with all levels open. -/
def Session.beforeOpenBlock : Session := { Session.ofSource "\x7b - x" none with depth := 128 }

/-- Here no expression is read at all, and still each statement uses up a token. -/
theorem reading_ends_openBlock :
    Session.beforeOpenBlock.cursor.current.kind ≠ .eof ∧
      Session.beforeOpenBlock.cursor.unread.length = 3 ∧
      (Operation.runAll [.recordedStatement, .advance] .beforeOpenBlock).cursor.unread.length < 3 ∧
      (∀ stuck, (statements expression closesBlock rfl).run .beforeOpenBlock =
        ((unrolled (nextStatement? expression closesBlock) stuck 4 [] .beforeOpenBlock).1.reverse,
          (unrolled (nextStatement? expression closesBlock) stuck 4 [] .beforeOpenBlock).2)) ∧
      (∀ left stuck, (operations expression .lowest left).run .beforeOpenBlock =
        unrolled (nextOperation? expression .lowest) stuck 4 (.ok left) .beforeOpenBlock) ∧
      (∀ stuck, (expression .lowest).run .beforeOpenBlock =
        (unrolledExpression 128 stuck 4 .lowest).run .beforeOpenBlock) ∧
      (Operation.block.run .beforeOpenBlock).errors.size = 2 ∧
      (Operation.block.run .beforeOpenBlock).cursor.current.kind = .eof := by
  have hk : Session.beforeOpenBlock.cursor.current.kind ≠ .eof := by decide +kernel
  have hn : Session.beforeOpenBlock.cursor.unread.length = 3 := by decide +kernel
  have hlt : Session.beforeOpenBlock.cursor.unread.length < 4 := by omega
  obtain ⟨hstatement, hstatements, hoperations, hexpression, -, hblock⟩ := reading_ends
  have hunread := hstatement .beforeOpenBlock hk
  rw [hn] at hunread
  have hend : (Operation.block.run .beforeOpenBlock).cursor.current.kind ≠ .rbrace := by
    decide +kernel
  exact ⟨hk, hn, hunread, fun stuck => hstatements expression closesBlock rfl stuck 4 _ hlt,
    fun left stuck => hoperations expression .lowest left stuck 4 _ hlt,
    fun stuck => hexpression maxLevels .lowest stuck 4 _ hlt, by decide +kernel,
    (hblock .beforeOpenBlock).resolve_left hend⟩

end ExprLang
