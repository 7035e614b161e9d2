import ExprLang.Proofs.Parsing.Forms
import ExprLang.Proofs.Parsing.TokenMap

/-!
# Two parses side by side

A `Simulation` says when two sessions are in step with each other.  Two parses `Agree` if they yield
the same and stay in step, or come apart in a way that the simulation allows.  Each form of the
grammar agrees with itself as far as the expressions in it do; since expressions call one another
only behind a token, it is enough to look at one call (`Simulation.fix`).
-/

namespace ExprLang

open Parse Walk

/-- When two sessions are in step.  Once they are `Apart` they may do what they like.  In between,
`Pending`, the left one is about to fail, and will be apart from the right one when that is
reported. -/
structure Simulation where
  /-- what is compared of the tokens on the left -/
  left : Token → Token
  /-- what is compared of the tokens on the right -/
  right : Token → Token
  Same : Token → Token → Prop
  SameReport : Diagnostic → Diagnostic → Prop
  Sync : Session → Session → Prop
  Apart : Session → Session → Prop
  Pending : Diagnostic → Session → Session → Prop
  view : ∀ {t u}, Same t u → left t = right u
  kind : ∀ {t u}, Same t u → t.kind = u.kind
  literal : ∀ {t u}, Same t u → t.literal = u.literal
  failAt : ∀ {t u c}, Same t u → (∀ n, c ≠ .tooDeep n) →
    SameReport ⟨c, t.position⟩ ⟨c, u.position⟩
  current : ∀ {s t}, Sync s t → Same s.cursor.current t.cursor.current
  peek : ∀ {s t}, Sync s t → Same s.cursor.peek t.cursor.peek
  next : ∀ {s t}, Sync s t → Sync s.next t.next
  report : ∀ {s t d e}, Sync s t → SameReport d e → Sync (s.report d) (t.report e)
  apart : ∀ {s t s' t'}, Apart s t → s.LeadsTo s' → t.LeadsTo t' → Apart s' t'
  pending : ∀ {d s t t'}, Pending d s t → t.LeadsTo t' → Pending d s t'
  pendingReport : ∀ {d s t}, Pending d s t → Apart (s.report d) t

namespace Simulation

variable (S : Simulation) {α α' β β' : Type}

/-- The results of two parses agree, with values that are related by `V`. -/
inductive Agree (V : α → α' → Prop) :
    Except Diagnostic α × Session → Except Diagnostic α' × Session → Prop
  | ok {a : α} {a' : α'} {s t : Session} (hv : V a a') (hs : S.Sync s t) :
      Agree V (.ok a, s) (.ok a', t)
  | error {d e : Diagnostic} {s t : Session} (hd : S.SameReport d e) (hs : S.Sync s t) :
      Agree V (.error d, s) (.error e, t)
  | apart {r : Except Diagnostic α} {q : Except Diagnostic α'} {s t : Session}
      (h : S.Apart s t) : Agree V (r, s) (q, t)
  | pending {d : Diagnostic} {q : Except Diagnostic α'} {s t : Session} (h : S.Pending d s t) :
      Agree V (.error d, s) (q, t)

inductive AgreeWalk (V : α → α' → Prop) : α × Session → α' × Session → Prop
  | sync {a : α} {a' : α'} {s t : Session} (hv : V a a') (hs : S.Sync s t) :
      AgreeWalk V (a, s) (a', t)
  | apart {a : α} {a' : α'} {s t : Session} (h : S.Apart s t) : AgreeWalk V (a, s) (a', t)

/-! ### Trees that look the same -/

/-- Expressions that look the same from both sides. -/
def SameExpr (e e' : Expr) : Prop := e.mapTokens S.left = e'.mapTokens S.right

def SameStmt (st st' : Stmt) : Prop := st.mapTokens S.left = st'.mapTokens S.right

def SameStmts (ss ss' : List Stmt) : Prop :=
  ss.map (Stmt.mapTokens S.left) = ss'.map (Stmt.mapTokens S.right)

def SameBlock (b b' : Block) : Prop := b.mapTokens S.left = b'.mapTokens S.right

def SameProgram (p p' : Program) : Prop := S.SameStmts p.statements p'.statements

variable {S}

theorem SameStmts.append {ss ss' rs rs' : List Stmt} (h : S.SameStmts ss ss')
    (h' : S.SameStmts rs rs') : S.SameStmts (ss ++ rs) (ss' ++ rs') := by
  unfold SameStmts
  rw [List.map_append, List.map_append, h, h']

/-! ### Sequences -/

section Sequences

variable {V : α → α' → Prop} {W : β → β' → Prop} {s t : Session}

theorem Agree.bind {x : Parse α} {y : Parse α'} {f : α → Parse β} {g : α' → Parse β'}
    (h : S.Agree V (x.run s) (y.run t))
    (hf : ∀ a a' u v, V a a' → S.Sync u v → s.cursor.Ahead u.cursor →
      S.Agree W ((f a).run u) ((g a').run v)) :
    S.Agree W ((x >>= f).run s) ((y >>= g).run t) := by
  have hx := x.attempt.ahead s
  have hl := leads_bind x f s
  have hl' := leads_bind y g t
  rw [run_attempt] at hx
  rw [Parse.run_bind] at hl hl'
  rw [Parse.run_bind, Parse.run_bind]
  generalize x.run s = r at *
  generalize y.run t = q at *
  cases h with
  | ok hv hs => exact hf _ _ _ _ hv hs hx
  | error hd hs => exact .error hd hs
  | apart h => exact .apart (S.apart h hl hl')
  | pending h => exact .pending (S.pending h hl')

theorem AgreeWalk.bind {x : Walk α} {y : Walk α'} {f : α → Parse β} {g : α' → Parse β'}
    (h : S.AgreeWalk V (x.run s) (y.run t))
    (hf : ∀ a a' u v, V a a' → S.Sync u v → s.cursor.Ahead u.cursor →
      S.Agree W ((f a).run u) ((g a').run v)) :
    S.Agree W (((liftM x : Parse α) >>= f).run s) (((liftM y : Parse α') >>= g).run t) := by
  refine Agree.bind (V := V) ?_ hf
  rw [run_lift, run_lift]
  generalize x.run s = r at *
  generalize y.run t = q at *
  cases h with
  | sync hv hs => exact .ok hv hs
  | apart h => exact .apart h

theorem agree_expect_bind {k : Kind} {f : Unit → Parse β} {g : Unit → Parse β'}
    (hs : S.Sync s t)
    (hf : s.cursor.peek.kind = k → S.Agree W ((f ()).run s.next) ((g ()).run t.next)) :
    S.Agree W ((expect k >>= f).run s) ((expect k >>= g).run t) := by
  have hp := S.peek hs
  rw [Parse.run_bind, Parse.run_bind, run_expect, run_expect, ← S.kind hp]
  by_cases hk : s.cursor.peek.kind = k
  · rw [if_pos hk, if_pos hk]
    exact hf hk
  · rw [if_neg hk, if_neg hk]
    exact .error (S.failAt hp nofun) hs

/-- A failure that is reported, on both sides, or on the left only. -/
theorem Agree.recorded {x : Parse α} {y : Parse α'} (h : S.Agree V (x.run s) (y.run t)) :
    S.AgreeWalk (Option.Rel V) ((recorded x).run s) ((recorded y).run t) := by
  have hx := leads_recorded x s
  have hy := leads_recorded y t
  rw [run_recorded] at hx hy
  rw [run_recorded, run_recorded]
  generalize x.run s = r at *
  generalize y.run t = q at *
  cases h with
  | ok hv hs => exact .sync (.some hv) hs
  | error hd hs => exact .sync .none (S.report hs hd)
  | apart h => exact .apart (S.apart h hx hy)
  | pending h => exact .apart (S.apart (S.pendingReport h) (.refl _) hy)

end Sequences

/-! ### Forms -/

/-- Expressions agree where less than `m` of the source is left. -/
def Calls (S : Simulation) (expr expr' : Power → Parse Expr) (m : Nat) : Prop :=
  ∀ p s t, S.Sync s t → s.cursor.size < m → S.Agree S.SameExpr ((expr p).run s) ((expr' p).run t)

section Forms

open Grammar

variable {expr expr' : Power → Parse Expr} {m : Nat} {s t : Session}

theorem agree_skipSemicolon (hs : S.Sync s t) :
    S.AgreeWalk (fun _ _ => True) (skipSemicolon.run s) (skipSemicolon.run t) := by
  unfold skipSemicolon
  rw [Walk.run_bind, Walk.run_bind, run_peek, run_peek]
  simp only [← S.kind (S.peek hs)]
  split
  · exact .sync trivial (S.next hs)
  · exact .sync trivial hs

theorem size_next_le (s : Session) : s.next.cursor.size ≤ s.cursor.size :=
  Cursor.size_advance_le _

theorem size_next_lt (hk : s.cursor.current.kind ≠ .eof) : s.next.cursor.size < s.cursor.size :=
  Cursor.size_advance_lt (.inl hk)

theorem size_next_lt_of_peek (hk : s.cursor.peek.kind ≠ .eof) :
    s.next.cursor.size < s.cursor.size := Cursor.size_advance_lt (.inr hk)

theorem agree_ident (hs : S.Sync s t) :
    S.Agree S.SameExpr (Grammar.ident.run s) (Grammar.ident.run t) := by
  have hc := S.current hs
  rw [run_ident, run_ident]
  refine .ok ?_ hs
  rw [SameExpr, Expr.mapTokens, Expr.mapTokens, S.view hc, S.literal hc]

theorem agree_number (hs : S.Sync s t) :
    S.Agree S.SameExpr (Grammar.number.run s) (Grammar.number.run t) := by
  have hc := S.current hs
  rw [number, run_current_bind, run_current_bind, ← S.literal hc]
  cases Decimal.ofLiteral? s.cursor.current.literal with
  | none => exact .error (S.failAt hc nofun) hs
  | some n =>
    refine .ok ?_ hs
    rw [SameExpr, Expr.mapTokens, Expr.mapTokens, S.view hc]

theorem agree_boolean (hs : S.Sync s t) :
    S.Agree S.SameExpr (Grammar.boolean.run s) (Grammar.boolean.run t) := by
  have hc := S.current hs
  rw [run_boolean, run_boolean]
  refine .ok ?_ hs
  rw [SameExpr, Expr.mapTokens, Expr.mapTokens, S.view hc, Token.is, Token.is, S.kind hc]

variable (h : S.Calls expr expr' m)

include h

/-- The value of a statement and the semicolon that may stand behind it. -/
theorem Calls.value {f g : Expr → Stmt} (hf : ∀ e e', S.SameExpr e e' → S.SameStmt (f e) (g e'))
    (hs : S.Sync s t) (hm : s.cursor.size < m) :
    S.Agree S.SameStmt
      ((do let v ← expr .lowest; skipSemicolon; return f v : Parse Stmt).run s)
      ((do let v ← expr' .lowest; skipSemicolon; return g v : Parse Stmt).run t) := by
  refine (h _ _ _ hs hm).bind fun e e' u v he hu _ => ?_
  refine (agree_skipSemicolon hu).bind fun _ _ _ _ _ hu' _ => ?_
  exact .ok (hf e e' he) hu'

theorem Calls.binding (hs : S.Sync s t) (hm : s.cursor.size < m) :
    S.Agree S.SameStmt ((binding expr).run s) ((binding expr').run t) := by
  rw [Grammar.binding, Grammar.binding, run_current_bind, run_current_bind]
  refine agree_expect_bind hs fun _ => ?_
  rw [run_current_bind, run_current_bind]
  refine agree_expect_bind (S.next hs) fun _ => ?_
  rw [run_advance_bind, run_advance_bind]
  have hname := S.current (S.next hs)
  refine h.value (fun e e' he => ?_) (S.next (S.next (S.next hs))) ?_
  · simp only [SameStmt, Stmt.mapTokens, S.view (S.current hs), S.view hname, S.literal hname]
    rw [he]
  · have h1 := size_next_le s
    have h2 := size_next_le s.next
    have h3 := size_next_le s.next.next
    omega

theorem Calls.result (hs : S.Sync s t) (hm : s.cursor.size < m) :
    S.Agree S.SameStmt ((result expr).run s) ((result expr').run t) := by
  rw [Grammar.result, Grammar.result, run_current_bind, run_current_bind, run_advance_bind,
    run_advance_bind]
  refine h.value (fun e e' he => ?_) (S.next hs) (Nat.lt_of_le_of_lt (size_next_le s) hm)
  simp only [SameStmt, Stmt.mapTokens, S.view (S.current hs)]
  rw [he]

theorem Calls.bareExpression (hs : S.Sync s t) (hm : s.cursor.size < m) :
    S.Agree S.SameStmt ((bareExpression expr).run s) ((bareExpression expr').run t) := by
  rw [Grammar.bareExpression, Grammar.bareExpression, run_current_bind, run_current_bind]
  refine h.value (fun e e' he => ?_) hs hm
  simp only [SameStmt, Stmt.mapTokens, S.view (S.current hs)]
  rw [he]

theorem Calls.statement (hs : S.Sync s t) (hm : s.cursor.size < m) :
    S.Agree S.SameStmt ((statement expr).run s) ((statement expr').run t) := by
  rw [Grammar.statement, Grammar.statement, run_current_bind, run_current_bind,
    ← S.kind (S.current hs)]
  cases s.cursor.current.kind
  case letWord => exact h.binding hs hm
  case returnWord => exact h.result hs hm
  all_goals exact h.bareExpression hs hm

/-- The induction is on what is left of the source on the left side. -/
theorem Calls.statements {closes : Kind → Bool} {hc : closes .eof} (hs : S.Sync s t)
    (hm : s.cursor.size < m) :
    S.AgreeWalk S.SameStmts ((statements expr closes hc).run s)
      ((statements expr' closes hc).run t) := by
  induction hn : s.cursor.size using Nat.strongRecOn generalizing s t with
  | ind n ih =>
    subst hn
    have hl := (Grammar.statements expr closes hc).leads
    have hl' := (Grammar.statements expr' closes hc).leads
    rw [run_statements, run_statements, ← S.kind (S.current hs)]
    by_cases hk : closes s.cursor.current.kind
    · rw [if_pos hk, if_pos hk]
      exact .sync rfl hs
    · rw [if_neg hk, if_neg hk]
      have hlt : ((recorded (Grammar.statement expr)).run s).2.next.cursor.size <
          s.cursor.size := size_next_statement_lt hc hk
      have hr := (h.statement hs hm).recorded
      generalize (recorded (Grammar.statement expr)).run s = r at *
      generalize (recorded (Grammar.statement expr')).run t = q at *
      cases hr with
      | apart ha =>
        refine .apart (S.apart ha ?_ ?_)
        · exact (Session.leadsTo_next _).trans (hl _)
        · exact (Session.leadsTo_next _).trans (hl' _)
      | @sync o o' u v ho hu =>
        have hrest := ih _ hlt (S.next hu) (Nat.lt_trans hlt hm) rfl
        simp only
        generalize (Grammar.statements expr closes hc).run u.next = x at *
        generalize (Grammar.statements expr' closes hc).run v.next = y at *
        cases hrest with
        | apart ha => exact .apart ha
        | sync hss hv =>
          refine .sync (SameStmts.append ?_ hss) hv
          cases ho with
          | none => rfl
          | some hst => exact congrArg (fun st => [st]) hst

theorem Calls.block (hs : S.Sync s t) (hm : s.cursor.size < m) :
    S.AgreeWalk S.SameBlock ((block expr).run s) ((block expr').run t) := by
  have hb : S.AgreeWalk S.SameStmts ((Grammar.statements expr closesBlock rfl).run s.next)
      ((Grammar.statements expr' closesBlock rfl).run t.next) :=
    h.statements (S.next hs) (Nat.lt_of_le_of_lt (size_next_le s) hm)
  rw [run_block, run_block]
  generalize (Grammar.statements expr closesBlock rfl).run s.next = x at *
  generalize (Grammar.statements expr' closesBlock rfl).run t.next = y at *
  cases hb with
  | apart ha => exact .apart ha
  | sync hss hv =>
    refine .sync ?_ hv
    simp only [SameBlock, Block.mapTokens, Stmt.mapTokensAll_eq, S.view (S.current hs)]
    rw [hss]

/-! ### Operands and operations -/

theorem Calls.unary (hs : S.Sync s t) (hm : s.next.cursor.size < m) :
    S.Agree S.SameExpr ((unary expr).run s) ((unary expr').run t) := by
  rw [Grammar.unary, Grammar.unary, run_current_bind, run_current_bind, run_advance_bind,
    run_advance_bind]
  have hc := S.current hs
  refine (h _ _ _ (S.next hs) hm).bind fun e e' u v he hu _ => .ok ?_ hu
  simp only [SameExpr, Expr.mapTokens, S.view hc, S.literal hc]
  rw [he]

theorem Calls.binary {l l' : Expr} (hl : S.SameExpr l l') (hs : S.Sync s t)
    (hm : s.cursor.size < m) :
    S.Agree S.SameExpr ((binary expr l).run s) ((binary expr' l').run t) := by
  have hc := S.current hs
  rw [Grammar.binary, Grammar.binary, run_current_bind, run_current_bind, run_advance_bind,
    run_advance_bind, ← S.kind hc]
  refine (h _ _ _ (S.next hs) (Nat.lt_of_le_of_lt (size_next_le s) hm)).bind
    fun e e' u v he hu _ => .ok ?_ hu
  simp only [SameExpr, Expr.mapTokens, S.view hc, S.literal hc]
  rw [he, hl]

theorem Calls.grouped (hs : S.Sync s t) (hm : s.next.cursor.size < m) :
    S.Agree S.SameExpr ((grouped expr).run s) ((grouped expr').run t) := by
  rw [Grammar.grouped, Grammar.grouped, run_advance_bind, run_advance_bind]
  refine (h _ _ _ (S.next hs) hm).bind fun e e' u v he hu _ => ?_
  exact agree_expect_bind hu fun _ => .ok he (S.next hu)

theorem Calls.conditional (hs : S.Sync s t) (hm : s.next.cursor.size < m) :
    S.Agree S.SameExpr ((conditional expr).run s) ((conditional expr').run t) := by
  have hw := S.view (S.current hs)
  rw [Grammar.conditional, Grammar.conditional, run_current_bind, run_current_bind]
  refine agree_expect_bind hs fun _ => ?_
  rw [run_advance_bind, run_advance_bind]
  have hlt' : s.next.next.cursor.size < m := Nat.lt_of_le_of_lt (size_next_le _) hm
  refine (h _ _ _ (S.next (S.next hs)) hlt').bind fun c c' u v hc hu hau => ?_
  have hult : u.cursor.size < m := Nat.lt_of_le_of_lt hau.size_le hlt'
  refine agree_expect_bind hu fun _ => agree_expect_bind (S.next hu) fun _ => ?_
  have hult' : u.next.next.cursor.size < m :=
    Nat.lt_of_le_of_lt (Nat.le_trans (size_next_le _) (size_next_le _)) hult
  refine (h.block (S.next (S.next hu)) hult').bind fun b b' w x hb hx haw => ?_
  have hwlt : w.cursor.size < m := Nat.lt_of_le_of_lt haw.size_le hult'
  rw [run_peek_bind, run_peek_bind, ← S.kind (S.peek hx)]
  by_cases he : w.cursor.peek.kind = .elseWord
  · rw [if_pos he, if_pos he, run_advance_bind, run_advance_bind]
    refine agree_expect_bind (S.next hx) fun _ => ?_
    refine (h.block (S.next (S.next hx)) (Nat.lt_of_le_of_lt
      (Nat.le_trans (size_next_le _) (size_next_le _)) hwlt)).bind fun a a' y z ha hz _ => ?_
    refine .ok ?_ hz
    simp only [SameExpr, Expr.mapTokens, hw]
    rw [hc, hb, ha]
  · rw [if_neg he, if_neg he]
    refine .ok ?_ hx
    simp only [SameExpr, Expr.mapTokens, hw]
    rw [hc, hb]

theorem Calls.operand (hs : S.Sync s t) (hm : s.cursor.size ≤ m) :
    S.Agree S.SameExpr ((operand expr).run s) ((operand expr').run t) := by
  have hc := S.current hs
  have hfail : S.Agree S.SameExpr
      ((Parse.failAt s.cursor.current (.noOperand s.cursor.current.kind) : Parse Expr).run s)
      ((Parse.failAt t.cursor.current (.noOperand s.cursor.current.kind) : Parse Expr).run t) :=
    .error (S.failAt hc nofun) hs
  -- only a token that starts an operand lets expressions call one another
  have hnext : s.cursor.current.kind ≠ .eof → s.next.cursor.size < m :=
    fun hk => Nat.lt_of_lt_of_le (size_next_lt hk) hm
  rw [Grammar.operand, Grammar.operand, run_current_bind, run_current_bind, ← S.kind hc]
  cases hk : s.cursor.current.kind
  case ident => exact agree_ident hs
  case int => exact agree_number hs
  case trueWord | falseWord => exact agree_boolean hs
  case bang | minus => exact h.unary hs (hnext (by rw [hk]; nofun))
  case lparen => exact h.grouped hs (hnext (by rw [hk]; nofun))
  case ifWord => exact h.conditional hs (hnext (by rw [hk]; nofun))
  all_goals
    rw [hk] at hfail
    exact hfail

/-- The induction is on what is left of the source on the left side. -/
theorem Calls.operations {p : Power} {l l' : Expr} (hl : S.SameExpr l l') (hs : S.Sync s t)
    (hm : s.cursor.size ≤ m) :
    S.Agree S.SameExpr ((operations expr p l).run s) ((operations expr' p l').run t) := by
  induction hn : s.cursor.size using Nat.strongRecOn generalizing s t l l' with
  | ind n ih =>
    subst hn
    rw [run_operations, run_operations, ← S.kind (S.peek hs)]
    by_cases hp : p < s.cursor.peek.kind.power
    · rw [if_pos hp, if_pos hp]
      have hlt := size_next_lt_of_peek (Kind.ne_eof_of_lt_power hp)
      have hb := h.binary hl (S.next hs) (Nat.lt_of_lt_of_le hlt hm)
      refine hb.bind fun e e' u v he hu hau => ?_
      have hult := Nat.lt_of_le_of_lt hau.size_le hlt
      exact ih _ hult he hu (Nat.le_trans (Nat.le_of_lt hult) hm) rfl
    · rw [if_neg hp, if_neg hp]
      exact .ok hl hs

theorem Calls.expressionAbove {p : Power} (hs : S.Sync s t) (hm : s.cursor.size ≤ m) :
    S.Agree S.SameExpr ((expressionAbove expr p).run s) ((expressionAbove expr' p).run t) :=
  (h.operand hs hm).bind fun _ _ _ _ he hu hau =>
    h.operations he hu (Nat.le_trans hau.size_le hm)

end Forms

/-! ### Expressions that call one another -/

section Fix

variable {expr expr' : Power → Parse Expr} {s t : Session}

/-- If expressions agree as far as those do that they call behind a token, then they agree. -/
theorem fix (h : ∀ m, S.Calls expr expr' m → S.Calls expr expr' (m + 1)) (m : Nat) :
    S.Calls expr expr' m := by
  induction m with
  | zero => exact fun _ _ _ _ hm => absurd hm (Nat.not_lt_zero _)
  | succ m ih => exact h m ih

/-- One level deeper the results agree if the levels are counted on both sides alike. -/
theorem agree_nested {V : α → α' → Prop} {x : Parse α} {y : Parse α'}
    (hsync : ∀ {s t}, S.Sync s t → S.Sync s.shallower t.shallower)
    (hpending : ∀ {d s t}, S.Pending d s t → S.Pending d s.shallower t)
    (h : S.Agree V (x.run s.deeper) (y.run t.deeper)) :
    S.Agree V ((nested x).run s) ((nested y).run t) := by
  rw [run_nested_deeper, run_nested_deeper]
  generalize x.run s.deeper = r at *
  generalize y.run t.deeper = q at *
  cases h with
  | ok hv hs => exact .ok hv (hsync hs)
  | error hd hs => exact .error hd (hsync hs)
  | apart h =>
    exact .apart (S.apart h (Session.leadsTo_shallower _) (Session.leadsTo_shallower _))
  | pending h => exact .pending (S.pending (hpending h) (Session.leadsTo_shallower _))

theorem agree_program (h : ∀ m, S.Calls expr expr' m) (hs : S.Sync s t) :
    S.AgreeWalk S.SameProgram ((Grammar.program expr).run s) ((Grammar.program expr').run t) := by
  have hp : S.AgreeWalk S.SameStmts ((Grammar.statements expr (· == .eof) rfl).run s)
      ((Grammar.statements expr' (· == .eof) rfl).run t) :=
    (h _).statements hs (Nat.lt_succ_self _)
  rw [Grammar.run_program, Grammar.run_program]
  generalize (Grammar.statements expr (· == .eof) rfl).run s = x at *
  generalize (Grammar.statements expr' (· == .eof) rfl).run t = y at *
  cases hp with
  | apart ha => exact .apart ha
  | sync hss hv => exact .sync hss hv

end Fix

/-! ### Equal results -/

section Equal

variable {P : Session → Prop} {hn : ∀ {s}, P s → P s.next} {hr : ∀ {s d}, P s → P (s.report d)}

/-- Equal sessions, with a property that no step takes away. -/
def equal (P : Session → Prop) (hn : ∀ {s}, P s → P s.next)
    (hr : ∀ {s d}, P s → P (s.report d)) : Simulation where
  left := id
  right := id
  Same := Eq
  SameReport := Eq
  Sync s t := s = t ∧ P s
  Apart _ _ := False
  Pending _ _ _ := False
  view h := h
  kind := congrArg Token.kind
  literal := congrArg Token.literal
  failAt h _ := h ▸ rfl
  current h := h.1 ▸ rfl
  peek h := h.1 ▸ rfl
  next h := ⟨h.1 ▸ rfl, hn h.2⟩
  report h hd := ⟨h.1 ▸ hd ▸ rfl, hr h.2⟩
  apart h _ _ := h
  pending h _ := h
  pendingReport h := h

def identity : Simulation := equal (fun _ => True) id id

theorem sync_identity (s : Session) : identity.Sync s s := ⟨rfl, trivial⟩

theorem Agree.eq {V : α → α → Prop} (hV : ∀ {a a'}, V a a' → a = a')
    {r q : Except Diagnostic α × Session} (h : (equal P hn hr).Agree V r q) : r = q := by
  cases h with
  | ok hv hs => rw [hV hv, hs.1]
  | error hd hs => rw [show _ = _ from hd, hs.1]
  | apart h => exact h.elim
  | pending h => exact h.elim

theorem AgreeWalk.eq {V : α → α → Prop} (hV : ∀ {a a'}, V a a' → a = a') {r q : α × Session}
    (h : (equal P hn hr).AgreeWalk V r q) : r = q := by
  cases h with
  | sync hv hs => rw [hV hv, hs.1]
  | apart h => exact h.elim

/-- Parses that agree leave the same session behind, with the property. -/
theorem Agree.settled {V : α → α' → Prop} {r : Except Diagnostic α × Session}
    {q : Except Diagnostic α' × Session} (h : (equal P hn hr).Agree V r q) :
    r.2 = q.2 ∧ P q.2 := by
  cases h with
  | ok _ hs | error _ hs => exact ⟨hs.1, hs.1 ▸ hs.2⟩
  | apart h | pending h => exact h.elim

/-- Walks that agree leave the same session behind, with the property. -/
theorem AgreeWalk.settled {V : α → α' → Prop} {r : α × Session} {q : α' × Session}
    (h : (equal P hn hr).AgreeWalk V r q) : r.2 = q.2 ∧ P q.2 := by
  cases h with
  | sync _ hs => exact ⟨hs.1, hs.1 ▸ hs.2⟩
  | apart h => exact h.elim

/-- Equal results agree. -/
theorem agree_self {r : Except Diagnostic Expr × Session} (h : P r.2) :
    (equal P hn hr).Agree (equal P hn hr).SameExpr r r := by
  obtain ⟨d | e, s⟩ := r
  · exact .error rfl ⟨rfl, h⟩
  · exact .ok rfl ⟨rfl, h⟩

end Equal

end Simulation

end ExprLang
