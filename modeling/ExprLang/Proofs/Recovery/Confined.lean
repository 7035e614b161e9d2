import ExprLang.Proofs.Recovery.Account
import ExprLang.Proofs.Parsing.Forms

/-!
# How far a parse looks

What a parse does from a session on is settled by the tokens up to the one it comes to and the one
behind that, and if it comes to a semicolon, by the tokens up to the semicolon only
(`Walk.Settles`).  Outside of braces it does not pass a semicolon: the first one that it comes to is
its last token (`Cursor.Clear`).  Both hold of every form, whether it fails or not, since an
expression that is read does not end with a semicolon (`Parse.Confined`); the induction is on the
levels that may be opened (`confines_expressionOn`).
-/

namespace ExprLang

/-! ### Cursors with the same tokens -/

namespace Cursor

variable {c d : Cursor} {i j k : Nat}

/-- The cursor `c` has the tokens of `d` up to the `k`-th one, and also the one behind that unless
the `k`-th one is a semicolon. -/
def Agrees (c d : Cursor) (k : Nat) : Prop :=
  ∀ j, j ≤ k ∨ j = k + 1 ∧ (d.token k).kind ≠ .semicolon → c.token j = d.token j

theorem Agrees.mono (h : c.Agrees d k) (hi : i ≤ k) : c.Agrees d i := by
  intro j hj
  rcases Nat.lt_or_eq_of_le hi with hlt | rfl
  · exact h j (.inl (by omega))
  · exact h j hj

theorem Agrees.after (h : c.Agrees d (i + k)) : (c.after i).Agrees (d.after i) k := by
  intro j hj
  rw [token_after] at hj
  rw [token_after, token_after]
  refine h (i + j) ?_
  rcases hj with hj | ⟨rfl, hj⟩
  · exact .inl (by omega)
  · exact .inr ⟨by omega, hj⟩

theorem Agrees.current (h : c.Agrees d k) : c.current = d.current := h 0 (.inl (Nat.zero_le k))

theorem Agrees.peek (h : c.Agrees d k) (hd : d.current.kind ≠ .semicolon) : c.peek = d.peek :=
  h 1 (by
    cases k with
    | zero => exact .inr ⟨rfl, hd⟩
    | succ k => exact .inl (by omega))

/-- Before the token `k` there is no semicolon, or only behind a brace. -/
def Clear (c : Cursor) (k : Nat) : Prop :=
  ∀ j < k, (c.token j).kind = .semicolon → ∃ i < j, (c.token i).kind = .lbrace

theorem clear_zero (c : Cursor) : c.Clear 0 := fun _ hj => absurd hj (Nat.not_lt_zero _)

theorem Clear.add (h : c.Clear i) (h' : (c.after i).Clear k) : c.Clear (i + k) := by
  intro j hj hk
  rcases Nat.lt_or_ge j i with hlt | hge
  · exact h j hlt hk
  · obtain ⟨m, rfl⟩ := Nat.exists_eq_add_of_le hge
    rw [← token_after] at hk
    obtain ⟨l, hl, hb⟩ := h' m (by omega) hk
    rw [token_after] at hb
    exact ⟨i + l, by omega, hb⟩

theorem clear_one (h : c.current.kind ≠ .semicolon) : c.Clear 1 := by
  intro j hj hk
  obtain rfl : j = 0 := by omega
  exact absurd hk h

/-- Behind a brace there may be semicolons. -/
theorem clear_of_lbrace (h : c.current.kind = .lbrace) (k : Nat) : c.Clear k := by
  intro j _ hj
  cases j with
  | zero => exact absurd (h.symm.trans hj) nofun
  | succ j => exact ⟨0, Nat.succ_pos j, h⟩

end Cursor

/-! ### Walks -/

/-- The walk comes to the token `k`, and does the same from any cursor that agrees with that of the
session so far. -/
structure Walk.Settles {α : Type} (x : Walk α) (s : Session) (k : Nat) : Prop where
  cursor : (x.run s).2.cursor = s.cursor.after k
  run : ∀ c : Cursor, c.Agrees s.cursor k →
    x.run (s.moveTo c) = ((x.run s).1, (x.run s).2.moveTo (c.after k))

namespace Walk

variable {α β : Type} {s : Session} {k m : Nat}

theorem settles_pure (a : α) (s : Session) : (pure a : Walk α).Settles s 0 :=
  ⟨rfl, fun _ _ => rfl⟩

theorem settles_record (d : Diagnostic) (s : Session) : (record d).Settles s 0 :=
  ⟨rfl, fun _ _ => rfl⟩

theorem settles_current (s : Session) : current.Settles s 0 :=
  ⟨rfl, fun _ hc => Prod.ext hc.current rfl⟩

theorem settles_advance (s : Session) : advance.Settles s 1 := ⟨rfl, fun _ _ => rfl⟩

theorem settles_peek (hs : s.cursor.current.kind ≠ .semicolon) : peek.Settles s 0 :=
  ⟨rfl, fun _ hc => Prod.ext (hc.peek hs) rfl⟩

theorem Settles.bind {x : Walk α} {f : α → Walk β} (hx : x.Settles s k)
    (hf : (f (x.run s).1).Settles (x.run s).2 m) : (x >>= f).Settles s (k + m) := by
  refine ⟨?_, fun c hc => ?_⟩
  · rw [run_bind, hf.cursor, hx.cursor, Cursor.after_add]
  · have hc' : (c.after k).Agrees (x.run s).2.cursor m := hx.cursor ▸ hc.after
    rw [run_bind, hx.run c (hc.mono (Nat.le_add_right k m)), hf.run _ hc', Cursor.after_add]
    rfl

end Walk

/-! ### Parses -/

/-- The parse settles what it does up to some token, it passes no semicolon outside of braces, and
if it does not fail, then the token that it comes to has the property `Q`. -/
def Parse.Confined {α : Type} (Q : Token → Prop) (x : Parse α) (s : Session) : Prop :=
  ∃ k, x.attempt.Settles s k ∧ s.cursor.Clear k ∧
    ∀ a, (x.run s).1 = .ok a → Q (s.cursor.token k)

namespace Parse

open Walk

variable {α β : Type} {Q : Token → Prop} {s : Session}

theorem confined_pure (a : α) (h : Q s.cursor.current) : (pure a : Parse α).Confined Q s :=
  ⟨0, Walk.settles_pure _ s, s.cursor.clear_zero, fun _ _ => h⟩

theorem settles_lift {x : Walk α} {k : Nat} (h : x.Settles s k) :
    (liftM x : Parse α).attempt.Settles s k := h.bind (m := 0) (Walk.settles_pure _ _)

theorem confined_failAt (t : Token) (cause : Cause) (s : Session) :
    (failAt t cause : Parse α).Confined Q s :=
  ⟨0, Walk.settles_pure _ s, s.cursor.clear_zero, fun _ h => absurd h nofun⟩

section Bind

variable {x : Parse α} {f : α → Parse β} {t : Session} {k m : Nat}

theorem settles_bind_of_error {d : Diagnostic} (hx : x.attempt.Settles s k)
    (hr : x.run s = (.error d, t)) : (x >>= f).attempt.Settles s k := by
  refine Walk.Settles.bind (m := 0) hx ?_
  rw [run_attempt, hr]
  exact Walk.settles_pure _ t

theorem settles_bind_of_ok {a : α} (hx : x.attempt.Settles s k) (hr : x.run s = (.ok a, t))
    (hf : (f a).attempt.Settles t m) : (x >>= f).attempt.Settles s (k + m) := by
  refine Walk.Settles.bind hx ?_
  rw [run_attempt, hr]
  exact hf

/-- A parse goes on behind another one. -/
theorem confined_bind_of_ok {a : α} (hx : x.attempt.Settles s k) (hclear : s.cursor.Clear k)
    (hr : x.run s = (.ok a, t)) (hf : (f a).Confined Q t) : (x >>= f).Confined Q s := by
  have hcur := hx.cursor
  rw [run_attempt, hr] at hcur
  obtain ⟨m, hset, hclear', hend⟩ := hf
  have hcur' : t.cursor = s.cursor.after k := hcur
  rw [hcur'] at hclear' hend
  refine ⟨k + m, settles_bind_of_ok hx hr hset, hclear.add hclear', fun b hb => ?_⟩
  rw [run_bind, hr] at hb
  rw [← Cursor.token_after]
  exact hend b hb

/-- So it does behind one that does not come to a semicolon. -/
theorem Confined.bind (hx : x.Confined (·.kind ≠ .semicolon) s)
    (hf : ∀ a t, s.cursor.Ahead t.cursor → t.cursor.current.kind ≠ .semicolon →
      (f a).Confined Q t) : (x >>= f).Confined Q s := by
  obtain ⟨k, hset, hclear, hend⟩ := hx
  have hcur := hset.cursor
  rw [run_attempt] at hcur
  rcases hr : x.run s with ⟨d | a, t⟩
  · refine ⟨k, settles_bind_of_error hset hr, hclear, fun b hb => ?_⟩
    rw [run_bind, hr] at hb
    exact absurd hb nofun
  · rw [hr] at hcur hend
    have hcur' : t.cursor = s.cursor.after k := hcur
    refine confined_bind_of_ok hset hclear hr (hf a t ⟨k, hcur'⟩ ?_)
    rw [hcur']
    exact hend a rfl

end Bind

section Steps

variable {f : Token → Parse β} {g : Unit → Parse β}

theorem confined_current_bind (h : (f s.cursor.current).Confined Q s) :
    ((liftM Walk.current : Parse Token) >>= f).Confined Q s := by
  obtain ⟨k, hset, hclear, hend⟩ := h
  refine ⟨k, ⟨hset.cursor, fun c hc => ?_⟩, hclear, hend⟩
  have hf : f c.current = f s.cursor.current := congrArg f hc.current
  change (f c.current).attempt.run (s.moveTo c) = _
  rw [hf]
  exact hset.run c hc

variable (hs : s.cursor.current.kind ≠ .semicolon)

include hs

theorem confined_peek_bind (h : (f s.cursor.peek).Confined Q s) :
    ((liftM Walk.peek : Parse Token) >>= f).Confined Q s := by
  obtain ⟨k, hset, hclear, hend⟩ := h
  refine ⟨k, ⟨hset.cursor, fun c hc => ?_⟩, hclear, hend⟩
  have hf : f c.peek = f s.cursor.peek := congrArg f (hc.peek hs)
  change (f c.peek).attempt.run (s.moveTo c) = _
  rw [hf]
  exact hset.run c hc

theorem confined_advance_bind (h : (g ()).Confined Q s.next) :
    ((liftM Walk.advance : Parse Unit) >>= g).Confined Q s := by
  have hadv : (liftM Walk.advance : Parse Unit).attempt.Settles s 1 := ⟨rfl, fun _ _ => rfl⟩
  exact confined_bind_of_ok hadv (Cursor.clear_one hs) rfl h

theorem settles_expect_of_eq {e : Kind} (hk : s.cursor.peek.kind = e) :
    (expect e).attempt.Settles s 1 := by
  refine ⟨?_, fun c hc => ?_⟩
  · rw [run_attempt, run_expect, if_pos hk]
    rfl
  · have hk' : (s.moveTo c).cursor.peek.kind = e := (congrArg Token.kind (hc.peek hs)).trans hk
    rw [run_attempt, run_attempt, run_expect, run_expect, if_pos hk, if_pos hk']
    rfl

theorem settles_expect_of_ne {e : Kind} (hk : s.cursor.peek.kind ≠ e) :
    (expect e).attempt.Settles s 0 := by
  refine ⟨?_, fun c hc => ?_⟩
  · rw [run_attempt, run_expect, if_neg hk]
    rfl
  · have hp : (s.moveTo c).cursor.peek = s.cursor.peek := hc.peek hs
    rw [run_attempt, run_attempt, run_expect, run_expect, hp, if_neg hk, if_neg hk]
    rfl

theorem confined_expect_bind {e : Kind} (h : s.cursor.peek.kind = e → (g ()).Confined Q s.next) :
    (expect e >>= g).Confined Q s := by
  have hr := run_expect e s
  by_cases hk : s.cursor.peek.kind = e
  · rw [if_pos hk] at hr
    exact confined_bind_of_ok (settles_expect_of_eq hs hk) (Cursor.clear_one hs) hr (h hk)
  · rw [if_neg hk] at hr
    refine ⟨0, settles_bind_of_error (settles_expect_of_ne hs hk) hr, s.cursor.clear_zero,
      fun b hb => ?_⟩
    rw [run_bind, hr] at hb
    exact absurd hb nofun

end Steps

theorem Confined.nested {x : Parse α} (h : x.Confined Q s.deeper) : (nested x).Confined Q s := by
  obtain ⟨k, hset, hclear, hend⟩ := h
  refine ⟨k, ⟨hset.cursor, fun c hc => ?_⟩, hclear, hend⟩
  have hr : x.run (s.deeper.moveTo c) =
      ((x.run s.deeper).1, (x.run s.deeper).2.moveTo (c.after k)) := hset.run c hc
  rw [run_attempt, run_attempt, run_nested_deeper, run_nested_deeper]
  change ((x.run (s.deeper.moveTo c)).1, (x.run (s.deeper.moveTo c)).2.shallower) = _
  rw [hr]
  rfl

theorem settles_recorded {x : Parse α} {k : Nat} (h : x.attempt.Settles s k) :
    (recorded x).Settles s k := by
  refine Walk.Settles.bind (m := 0) h ?_
  rcases (x.attempt.run s).1 with d | a
  · exact (settles_record d _).bind (m := 0) (settles_pure _ _)
  · exact settles_pure _ _

end Parse

/-! ### Statements -/

namespace Grammar

open Parse Walk

variable {s : Session} {Q : Token → Prop}

/-- The expressions inside a form are confined, and do not end with a semicolon. -/
def Confines (expr : Power → Parse Expr) : Prop :=
  ∀ p s, (expr p).Confined (·.kind ≠ .semicolon) s

variable {expr : Power → Parse Expr} (h : Confines expr)

theorem exists_settles_skipSemicolon (hs : s.cursor.current.kind ≠ .semicolon) :
    ∃ k, skipSemicolon.Settles s k ∧ s.cursor.Clear k := by
  by_cases hk : s.cursor.peek.kind = .semicolon
  · refine ⟨0 + 1, (settles_peek hs).bind ?_, Cursor.clear_one hs⟩
    rw [run_peek, if_pos hk]
    exact settles_advance s
  · refine ⟨0 + 0, (settles_peek hs).bind ?_, s.cursor.clear_zero⟩
    rw [run_peek, if_neg hk]
    exact settles_pure _ s

/-- A semicolon behind a statement is its last token. -/
theorem confined_skipSemicolon_bind (st : Stmt) (hs : s.cursor.current.kind ≠ .semicolon) :
    (do skipSemicolon; return st : Parse Stmt).Confined (fun _ => True) s := by
  obtain ⟨k, hset, hclear⟩ := exists_settles_skipSemicolon hs
  exact confined_bind_of_ok (settles_lift hset) hclear (run_lift _ s) (confined_pure st trivial)

include h

theorem Confines.value (f : Expr → Stmt) (s : Session) :
    (do let v ← expr .lowest; skipSemicolon; return f v : Parse Stmt).Confined (fun _ => True) s :=
  (h _ s).bind fun _ _ _ ht => confined_skipSemicolon_bind _ ht

theorem Confines.binding (hs : s.cursor.current.kind = .letWord) :
    (binding expr).Confined (fun _ => True) s := by
  refine confined_current_bind (confined_expect_bind (by rw [hs]; nofun) fun hx => ?_)
  have hx' : s.next.cursor.current.kind = .ident := hx
  refine confined_current_bind (confined_expect_bind (by rw [hx']; nofun) fun ha => ?_)
  have ha' : s.next.next.cursor.current.kind = .assign := ha
  exact confined_advance_bind (by rw [ha']; nofun) (h.value _ _)

theorem Confines.result (hs : s.cursor.current.kind = .returnWord) :
    (result expr).Confined (fun _ => True) s :=
  confined_current_bind (confined_advance_bind (by rw [hs]; nofun) (h.value _ _))

theorem Confines.bareExpression (s : Session) : (bareExpression expr).Confined (fun _ => True) s :=
  confined_current_bind (h.value _ _)

theorem Confines.statement (s : Session) : (statement expr).Confined (fun _ => True) s := by
  refine confined_current_bind ?_
  cases hk : s.cursor.current.kind
  case letWord => exact h.binding hk
  case returnWord => exact h.result hk
  all_goals exact h.bareExpression s

/-- A list of statements comes to the token that closes it.  The induction is on what is left of the
source. -/
theorem Confines.statements {closes : Kind → Bool} {hc : closes .eof} (s : Session) :
    ∃ k, (statements expr closes hc).Settles s k ∧ closes (s.cursor.token k).kind := by
  induction hn : s.cursor.size using Nat.strongRecOn generalizing s with
  | ind n ih =>
    subst hn
    rw [statements_eq]
    by_cases hk : closes s.cursor.current.kind
    · refine ⟨0 + 0, (settles_current s).bind ?_, hk⟩
      rw [run_current, if_pos hk]
      exact settles_pure _ s
    · obtain ⟨k, hset, -, -⟩ := h.statement s
      obtain ⟨m, hrest, hend⟩ := ih _ (size_next_statement_lt hc hk) _ rfl
      have hcur : ((recorded (Grammar.statement expr)).run s).2.next.cursor =
          s.cursor.after (k + 1) :=
        congrArg Cursor.advance (settles_recorded hset).cursor
      rw [hcur, Cursor.token_after] at hend
      refine ⟨0 + (k + (1 + (m + 0))), (settles_current s).bind ?_, ?_⟩
      · rw [run_current, if_neg hk]
        exact (settles_recorded hset).bind
          ((settles_advance _).bind (hrest.bind (settles_pure _ _)))
      · rwa [Nat.zero_add, Nat.add_zero, ← Nat.add_assoc]

theorem Confines.block (hs : s.cursor.current.kind = .lbrace) :
    (liftM (block expr) : Parse Block).Confined (·.kind ≠ .semicolon) s := by
  obtain ⟨k, hset, hend⟩ :
      ∃ k, (Grammar.statements expr closesBlock rfl).Settles s.next k ∧
        closesBlock (s.next.cursor.token k).kind := h.statements s.next
  have hblock : (Grammar.block expr).Settles s (0 + (1 + (k + 0))) :=
    (settles_current s).bind ((settles_advance s).bind (hset.bind (settles_pure _ _)))
  have htok : s.next.cursor.token k = s.cursor.token (1 + k) := Cursor.token_after s.cursor 1 k
  refine ⟨0 + (1 + (k + 0)), settles_lift hblock, Cursor.clear_of_lbrace hs _, fun _ _ he => ?_⟩
  rw [htok] at hend
  rw [Nat.zero_add, Nat.add_zero] at he
  rw [he] at hend
  exact absurd hend nofun

/-! ### Operands and operations -/

theorem Confines.unary (hs : s.cursor.current.kind ≠ .semicolon) :
    (unary expr).Confined (·.kind ≠ .semicolon) s :=
  confined_current_bind (confined_advance_bind hs
    ((h _ _).bind fun _ _ _ ht => confined_pure _ ht))

theorem Confines.binary (l : Expr) (hs : s.cursor.current.kind ≠ .semicolon) :
    (binary expr l).Confined (·.kind ≠ .semicolon) s :=
  confined_current_bind (confined_advance_bind hs
    ((h _ _).bind fun _ _ _ ht => confined_pure _ ht))

theorem Confines.grouped (hs : s.cursor.current.kind = .lparen) :
    (grouped expr).Confined (·.kind ≠ .semicolon) s := by
  refine confined_advance_bind (by rw [hs]; nofun) ((h _ _).bind fun e t _ ht => ?_)
  refine confined_expect_bind ht fun hr => confined_pure e ?_
  rw [Session.cursor_next, Cursor.current_advance, hr]
  nofun

theorem Confines.conditional (hs : s.cursor.current.kind = .ifWord) :
    (conditional expr).Confined (·.kind ≠ .semicolon) s := by
  refine confined_current_bind (confined_expect_bind (by rw [hs]; nofun) fun hl => ?_)
  have hl' : s.next.cursor.current.kind = .lparen := hl
  refine confined_advance_bind (by rw [hl']; nofun) ((h _ _).bind fun c t _ ht => ?_)
  refine confined_expect_bind ht fun hr => ?_
  have hr' : t.next.cursor.current.kind = .rparen := hr
  refine confined_expect_bind (by rw [hr']; nofun) fun hb => ?_
  refine (h.block hb).bind fun b u _ hu => confined_peek_bind hu ?_
  split
  · rename_i he
    have he' : u.next.cursor.current.kind = .elseWord := he
    refine confined_advance_bind hu (confined_expect_bind (by rw [he']; nofun) fun ha => ?_)
    exact (h.block ha).bind fun a v _ hv => confined_pure _ hv
  · exact confined_pure _ hu

theorem Confines.operand (s : Session) : (operand expr).Confined (·.kind ≠ .semicolon) s := by
  refine confined_current_bind ?_
  have hne : ∀ {k : Kind}, s.cursor.current.kind = k → k ≠ .semicolon →
      s.cursor.current.kind ≠ .semicolon := fun hk h => hk ▸ h
  cases hk : s.cursor.current.kind
  case ident => exact confined_current_bind (confined_pure _ (hne hk nofun))
  case int =>
    refine confined_current_bind ?_
    cases Decimal.ofLiteral? s.cursor.current.literal with
    | none => exact confined_failAt _ _ s
    | some n => exact confined_pure _ (hne hk nofun)
  case trueWord | falseWord => exact confined_current_bind (confined_pure _ (hne hk nofun))
  case bang | minus => exact h.unary (hne hk nofun)
  case lparen => exact h.grouped hk
  case ifWord => exact h.conditional hk
  all_goals exact confined_failAt _ _ s

/-- The induction is on what is left of the source. -/
theorem Confines.operations (p : Power) (l : Expr) (hs : s.cursor.current.kind ≠ .semicolon) :
    (operations expr p l).Confined (·.kind ≠ .semicolon) s := by
  induction hn : s.cursor.size using Nat.strongRecOn generalizing s l with
  | ind n ih =>
    subst hn
    rw [operations_eq]
    refine confined_peek_bind hs ?_
    by_cases hp : p < s.cursor.peek.kind.power
    · rw [if_pos hp]
      have hop : s.next.cursor.current.kind ≠ .semicolon := by
        intro he
        have he' : s.cursor.peek.kind = .semicolon := he
        rw [he'] at hp
        exact p.not_lt_lowest hp
      have hlt : s.next.cursor.size < s.cursor.size :=
        Cursor.size_advance_lt (.inr (Kind.ne_eof_of_lt_power hp))
      exact confined_advance_bind hs ((h.binary l hop).bind fun e t ha ht =>
        ih _ (Nat.lt_of_le_of_lt ha.size_le hlt) e ht rfl)
    · rw [if_neg hp]
      exact confined_pure l hs

theorem Confines.expressionAbove (p : Power) (s : Session) :
    (expressionAbove expr p).Confined (·.kind ≠ .semicolon) s :=
  (h.operand s).bind fun l _ _ ht => h.operations p l ht

end Grammar

/-! ### Levels -/

theorem confines_expressionOn (limit levels : Nat) :
    Grammar.Confines (expressionOn limit levels) := by
  induction levels with
  | zero => exact fun _ s => Parse.confined_current_bind (Parse.confined_failAt _ _ s)
  | succ levels ih => exact fun p s => (ih.expressionAbove p s.deeper).nested

end ExprLang
