import ExprLang.Proofs.Parsing.Depth
import ExprLang.Proofs.Recovery.Account

/-!
# More text does not change what is decided

Two parses are compared, of a text and of the same text with more behind it.  They do the same as
long as they look at tokens of the first text only (`Session.Abreast`).  They part when the first
one sees the end: from then on it reports nothing but what is about the end, and the reports made
before are reports of the other one too (`Session.Parted`).

A parse looks one token ahead at most.  So where it sees the end first, it is on the last token, and
a form that it is in can only stop there or fail for what is missing (`Parse.Rests`).  There is one
lemma for each form, under the hypothesis that this holds of expressions (`Grammar.AreCausal`); the
induction is on the levels that may be opened (`areCausal_expressionOn`).
-/

namespace ExprLang

open Parse Walk

/-! ### Tokens before the end -/

namespace Cursor

variable {stop : Position} {c d : Cursor}

/-- From the current token on there is nothing but the end of the source. -/
def Ended (stop : Position) (c : Cursor) : Prop :=
  ∀ k, (c.token k).kind = .eof ∧ (c.token k).position = stop

theorem Ended.kind (h : c.Ended stop) : c.current.kind = .eof := (h 0).1

theorem Ended.position (h : c.Ended stop) : c.current.position = stop := (h 0).2

theorem Ended.kind_peek (h : c.advance.Ended stop) : c.peek.kind = .eof := h.kind

theorem Ended.not_lt_power (h : c.advance.Ended stop) (p : Power) : ¬ p < c.peek.kind.power := by
  rw [h.kind_peek]
  exact p.not_lt_lowest

theorem token_advance (c : Cursor) (k : Nat) : c.advance.token k = c.token (k + 1) := by
  rw [Nat.add_comm]
  exact c.token_after 1 k

theorem Ended.advance (h : c.Ended stop) : c.advance.Ended stop := fun k =>
  c.token_advance k ▸ h (k + 1)

/-- The tokens of `c` before the end are also the first ones of `d`, and there is at least one. -/
inductive Extends (stop : Position) : Cursor → Cursor → Prop
  | last {c d : Cursor} (hc : c.current = d.current) (h : c.advance.Ended stop) : Extends stop c d
  | more {c d : Cursor} (hc : c.current = d.current) (h : Extends stop c.advance d.advance) :
      Extends stop c d

theorem Extends.current (h : Extends stop c d) : c.current = d.current := by
  cases h with
  | last hc | more hc => exact hc

/-- The same said with numbers: the tokens up to the `n`-th one are the same, and those behind it
are the end. -/
theorem extends_of_token {n : Nat} (hc : ∀ k ≤ n, c.token k = d.token k)
    (he : ∀ k, n < k → (c.token k).kind = .eof ∧ (c.token k).position = stop) :
    Extends stop c d := by
  induction n generalizing c d with
  | zero => exact .last (hc 0 (Nat.le_refl 0)) fun k => c.token_advance k ▸ he _ (Nat.succ_pos k)
  | succ n ih =>
    refine .more (hc 0 (Nat.zero_le _)) (ih (fun k hk => ?_) fun k hk => ?_)
    · rw [token_advance, token_advance]
      exact hc _ (Nat.succ_le_succ hk)
    · rw [token_advance]
      exact he _ (Nat.succ_lt_succ hk)

end Cursor

/-! ### Sessions -/

namespace Session

variable {stop : Position} {s t u : Session} {d : Diagnostic}

/-- The session `t` has all tokens of `s` before the end, and the same reports. -/
structure Abreast (stop : Position) (s t : Session) : Prop where
  cursor : Cursor.Extends stop s.cursor t.cursor
  errors : s.errors = t.errors

/-- The session `s` has nothing but the end ahead.  What it shares with `t` are its first reports;
the others are about the end. -/
structure Parted (stop : Position) (s t : Session) : Prop where
  ended : s.cursor.advance.Ended stop
  reports : ∃ shared late, s.errors.toList = shared ++ late ∧
    (∀ d ∈ late, d.position = stop) ∧ shared <+: t.errors.toList

theorem Abreast.report (h : s.Abreast stop t) (d : Diagnostic) :
    (s.report d).Abreast stop (t.report d) := ⟨h.cursor, congrArg (Array.push · d) h.errors⟩

/-- Either there is a token behind the current one, the same on both sides, or the first session is
at its end then. -/
theorem Abreast.next (h : s.Abreast stop t) :
    s.next.Abreast stop t.next ∨ s.next.cursor.Ended stop := by
  cases h.cursor with
  | last _ he => exact .inr he
  | more _ hn => exact .inl ⟨hn, h.errors⟩

/-- Sessions part where the first one comes to its end, wherever the other one goes. -/
theorem parted_of_errors (h : s.errors = t.errors) (he : s.cursor.advance.Ended stop)
    (hl : t.LeadsTo u) : s.Parted stop u :=
  ⟨he, s.errors.toList, [], (List.append_nil _).symm, fun _ hd => absurd hd List.not_mem_nil,
    h ▸ hl.reports⟩

theorem Parted.leadsTo (h : s.Parted stop t) (hl : t.LeadsTo u) : s.Parted stop u := by
  obtain ⟨he, shared, late, hs, hlate, hp⟩ := h
  exact ⟨he, shared, late, hs, hlate, hp.trans hl.reports⟩

theorem Parted.next (h : s.Parted stop t) : s.next.Parted stop t := ⟨h.ended.advance, h.reports⟩

/-- Once it is at its end, the first session reports what it likes about that. -/
theorem Parted.report (h : s.Parted stop t) (hd : d.position = stop) :
    (s.report d).Parted stop t := by
  obtain ⟨he, shared, late, hs, hlate, hp⟩ := h
  refine ⟨he, shared, late ++ [d], ?_, ?_, hp⟩
  · rw [toList_errors_report, hs, List.append_assoc]
  · exact List.forall_mem_append.2 ⟨hlate, List.forall_mem_singleton.2 hd⟩

end Session

/-! ### Outcomes -/

section

variable {α β : Type} {stop : Position} {s t : Session}

/-- If it is a failure, it shows at the end of the source. -/
def FailsAt (stop : Position) (r : Except Diagnostic α) : Prop :=
  ∀ d, r = .error d → d.position = stop

theorem failsAt_ok (a : α) : FailsAt stop (.ok a : Except Diagnostic α) := by
  rintro _ ⟨⟩

theorem failsAt_error {d : Diagnostic} (h : d.position = stop) :
    FailsAt stop (.error d : Except Diagnostic α) := by
  rintro _ ⟨⟩
  exact h

/-- What becomes of two sessions: the same on both sides, or they part, with results that are
related by `V`. -/
inductive Outcome (stop : Position) (V : α → α → Prop) : α × Session → α × Session → Prop
  | same {s t : Session} (a : α) (h : s.Abreast stop t) : Outcome stop V (a, s) (a, t)
  | parted {a b : α} {s t : Session} (hv : V a b) (h : s.Parted stop t) :
      Outcome stop V (a, s) (b, t)

/-- The parse does the same in both sessions until it sees the end in the first one; if it fails
there after that, then at the end. -/
def Parse.Causal (stop : Position) (x : Parse α) (s t : Session) : Prop :=
  Outcome stop (fun r _ => FailsAt stop r) (x.run s) (x.run t)

/-- Where the source ends, the parse does nothing more, or fails there. -/
def Parse.Rests (stop : Position) (x : Parse α) (s : Session) : Prop :=
  ∃ r, x.run s = (r, s) ∧ FailsAt stop r

theorem Parse.Rests.causal {x : Parse α} (h : x.Rests stop s) (he : s.cursor.advance.Ended stop)
    (herr : s.errors = t.errors) : x.Causal stop s t := by
  have hl : t.LeadsTo (x.run t).2 := x.attempt.leads t
  obtain ⟨r, hr, hf⟩ := h
  rw [Parse.Causal, hr]
  exact .parted hf (Session.parted_of_errors herr he hl)

/-! ### Sequences -/

theorem rests_pure (a : α) : (pure a : Parse α).Rests stop s := ⟨.ok a, rfl, failsAt_ok a⟩

theorem Parse.Rests.bind {x : Parse α} {f : α → Parse β} (h : x.Rests stop s)
    (hf : ∀ a, (f a).Rests stop s) : (x >>= f).Rests stop s := by
  obtain ⟨r, hr, hfail⟩ := h
  rw [Parse.Rests, Parse.run_bind, hr]
  cases r with
  | ok a => exact hf a
  | error d => exact ⟨.error d, rfl, failsAt_error (hfail d rfl)⟩

theorem rests_peek_bind {f : Token → Parse β} (h : (f s.cursor.peek).Rests stop s) :
    ((liftM Walk.peek : Parse Token) >>= f).Rests stop s := h

/-- A token that is asked for is missing where the source ends. -/
theorem rests_expect_bind {k : Kind} {f : Unit → Parse β} (hk : k ≠ .eof)
    (he : s.cursor.advance.Ended stop) : (expect k >>= f).Rests stop s := by
  have hpeek : s.cursor.peek.kind ≠ k := he.kind_peek ▸ hk.symm
  rw [Parse.Rests, Parse.run_bind, run_expect, if_neg hpeek]
  exact ⟨_, rfl, failsAt_error he.position⟩

/-- What comes behind a parse has only to be looked at where the sessions have not parted, and at
the end of the source. -/
theorem Parse.Causal.bind {x : Parse α} {f : α → Parse β} (h : x.Causal stop s t)
    (hf : ∀ a u v, u.Abreast stop v → s.cursor.Ahead u.cursor → (f a).Causal stop u v)
    (hr : ∀ a u, u.cursor.advance.Ended stop → (f a).Rests stop u) :
    (x >>= f).Causal stop s t := by
  have ha : s.cursor.Ahead (x.run s).2.cursor := x.attempt.ahead s
  have hl := leads_bind x f t
  unfold Parse.Causal at h ⊢
  rw [Parse.run_bind] at hl
  rw [Parse.run_bind, Parse.run_bind]
  generalize x.run s = r at *
  generalize x.run t = q at *
  cases h with
  | same r h =>
    cases r with
    | ok a => exact hf a _ _ h ha
    | error d => exact .same _ h
  | @parted r q u v hfail h =>
    cases r with
    | ok a =>
      obtain ⟨r, hrun, hrf⟩ := hr a u h.ended
      simp only [hrun]
      exact .parted hrf (h.leadsTo hl)
    | error d => exact .parted (failsAt_error (hfail d rfl)) (h.leadsTo hl)

theorem Outcome.lift {V : α → α → Prop} {x : Walk α} (h : Outcome stop V (x.run s) (x.run t)) :
    (liftM x : Parse α).Causal stop s t := by
  rw [Parse.Causal, run_lift, run_lift]
  generalize x.run s = r at *
  generalize x.run t = q at *
  cases h with
  | same a h => exact .same _ h
  | parted _ h => exact .parted (failsAt_ok _) h

theorem causal_current_bind {f : Token → Parse β} (hs : s.Abreast stop t)
    (hf : (f s.cursor.current).Causal stop s t) :
    ((liftM Walk.current : Parse Token) >>= f).Causal stop s t := by
  rw [Parse.Causal, run_current_bind, run_current_bind, ← hs.cursor.current]
  exact hf

/-- Behind a step, the first session may have come to its end. -/
theorem causal_advance_bind {f : Unit → Parse β} (hs : s.Abreast stop t)
    (hf : s.next.Abreast stop t.next → (f ()).Causal stop s.next t.next)
    (hr : s.next.cursor.Ended stop → (f ()).Rests stop s.next) :
    ((liftM Walk.advance : Parse Unit) >>= f).Causal stop s t := by
  rw [Parse.Causal, run_advance_bind, run_advance_bind]
  rcases hs.next with h | he
  · exact hf h
  · exact (hr he).causal he.advance hs.errors

/-- A look at the token behind the current one may be one at the end. -/
theorem causal_peek_bind {f : Token → Parse β} (hs : s.Abreast stop t)
    (hf : (f s.cursor.peek).Causal stop s t)
    (hr : s.cursor.advance.Ended stop → (f s.cursor.peek).Rests stop s) :
    ((liftM Walk.peek : Parse Token) >>= f).Causal stop s t := by
  rcases hs.next with h | he
  · have hpeek : s.cursor.peek = t.cursor.peek := h.cursor.current
    rw [Parse.Causal, run_peek_bind, run_peek_bind, ← hpeek]
    exact hf
  · exact (rests_peek_bind (hr he)).causal he hs.errors

theorem causal_expect_bind {k : Kind} {f : Unit → Parse β} (hk : k ≠ .eof)
    (hs : s.Abreast stop t)
    (hf : s.next.Abreast stop t.next → (f ()).Causal stop s.next t.next) :
    (expect k >>= f).Causal stop s t := by
  rcases hs.next with h | he
  · have hpeek : s.cursor.peek = t.cursor.peek := h.cursor.current
    rw [Parse.Causal, Parse.run_bind, Parse.run_bind, run_expect, run_expect, ← hpeek]
    by_cases hp : s.cursor.peek.kind = k
    · rw [if_pos hp, if_pos hp]
      exact hf h
    · rw [if_neg hp, if_neg hp]
      exact .same _ hs
  · exact (rests_expect_bind hk he).causal he hs.errors

/-- What is reported of a parse on one side only is about the end. -/
theorem Parse.Causal.recorded {x : Parse α} (h : x.Causal stop s t) :
    Outcome stop (fun _ _ => True) ((recorded x).run s) ((recorded x).run t) := by
  have hl := leads_recorded x t
  unfold Parse.Causal at h
  rw [run_recorded] at hl
  rw [run_recorded, run_recorded]
  generalize x.run s = r at *
  generalize x.run t = q at *
  cases h with
  | same r h =>
    cases r with
    | ok a => exact .same _ h
    | error d => exact .same _ (h.report d)
  | @parted r q u v hfail h =>
    have h := h.leadsTo hl
    cases r with
    | ok a => exact .parted trivial h
    | error d => exact .parted trivial (h.report (hfail d rfl))

end

/-! ### Statements -/

namespace Grammar

variable {stop : Position} {s t : Session}

/-- The expressions inside a form are causal, and fail at once where the source has ended. -/
structure AreCausal (stop : Position) (expr : Power → Parse Expr) : Prop where
  causal : ∀ p s t, s.Abreast stop t → (expr p).Causal stop s t
  rests : ∀ p s, s.cursor.Ended stop → (expr p).Rests stop s

theorem rests_skipSemicolon_bind (st : Stmt) (he : s.cursor.advance.Ended stop) :
    (do skipSemicolon; return st : Parse Stmt).Rests stop s := by
  have hpeek : s.cursor.peek.kind ≠ .semicolon := by rw [he.kind_peek]; nofun
  have hrun : (do skipSemicolon; return st : Parse Stmt).run s = (.ok st, s) := by
    rw [Parse.run_bind, run_lift, skipSemicolon, Walk.run_bind, run_peek, if_neg hpeek]
    rfl
  exact ⟨_, hrun, failsAt_ok st⟩

theorem causal_skipSemicolon_bind (st : Stmt) (hs : s.Abreast stop t) :
    (do skipSemicolon; return st : Parse Stmt).Causal stop s t := by
  rcases hs.next with h | he
  · have hpeek : s.cursor.peek = t.cursor.peek := h.cursor.current
    rw [Parse.Causal, Parse.run_bind, Parse.run_bind, run_lift, run_lift, skipSemicolon,
      Walk.run_bind, Walk.run_bind, run_peek, run_peek, ← hpeek]
    by_cases hk : s.cursor.peek.kind = .semicolon
    · rw [if_pos hk]
      exact .same _ h
    · rw [if_neg hk]
      exact .same _ hs
  · exact (rests_skipSemicolon_bind st he).causal he hs.errors

variable {expr : Power → Parse Expr} (h : AreCausal stop expr)

include h

theorem AreCausal.value (f : Expr → Stmt) (hs : s.Abreast stop t) :
    (do let v ← expr .lowest; skipSemicolon; return f v : Parse Stmt).Causal stop s t :=
  (h.causal _ _ _ hs).bind (fun v _ _ hu _ => causal_skipSemicolon_bind (f v) hu)
    fun v _ he => rests_skipSemicolon_bind (f v) he

theorem AreCausal.rests_value (f : Expr → Stmt) (he : s.cursor.Ended stop) :
    (do let v ← expr .lowest; skipSemicolon; return f v : Parse Stmt).Rests stop s :=
  (h.rests _ _ he).bind fun v => rests_skipSemicolon_bind (f v) he.advance

theorem AreCausal.binding (hs : s.Abreast stop t) : (binding expr).Causal stop s t := by
  refine causal_current_bind hs (causal_expect_bind nofun hs fun hx => ?_)
  refine causal_current_bind hx (causal_expect_bind nofun hx fun ha => ?_)
  exact causal_advance_bind ha (h.value _) (h.rests_value _)

theorem AreCausal.result (hs : s.Abreast stop t) : (result expr).Causal stop s t :=
  causal_current_bind hs (causal_advance_bind hs (h.value _) (h.rests_value _))

theorem AreCausal.bareExpression (hs : s.Abreast stop t) :
    (bareExpression expr).Causal stop s t := causal_current_bind hs (h.value _ hs)

theorem AreCausal.statement (hs : s.Abreast stop t) : (statement expr).Causal stop s t := by
  refine causal_current_bind hs ?_
  cases s.cursor.current.kind
  case letWord => exact h.binding hs
  case returnWord => exact h.result hs
  all_goals exact h.bareExpression hs

omit h

section Statements

variable {closes : Kind → Bool} {hc : closes .eof}

/-- All statements but the last one are also the first ones of the other list. -/
abbrev Continues (ss ss' : List Stmt) : Prop := ss.dropLast <+: ss'

theorem continues_append (o : Option Stmt) {ss ss' : List Stmt} (h : Continues ss ss') :
    Continues (o.toList ++ ss) (o.toList ++ ss') := by
  cases ss with
  | nil => cases o <;> exact List.nil_prefix
  | cons st ss =>
    rw [Continues, List.dropLast_append_of_ne_nil (List.cons_ne_nil st ss)]
    exact (List.prefix_append_right_inj _).2 h

theorem continues_toList (o : Option Stmt) (ss' : List Stmt) :
    Continues (o.toList ++ []) ss' := by
  cases o <;> exact List.nil_prefix

theorem run_statements_of_ended (he : s.cursor.Ended stop) :
    (statements expr closes hc).run s = ([], s) := by
  rw [run_statements, he.kind, if_pos hc]

theorem outcome_statements_of_ended (he : s.cursor.Ended stop) (herr : s.errors = t.errors) :
    Outcome stop Continues ((statements expr closes hc).run s)
      ((statements expr closes hc).run t) := by
  rw [run_statements_of_ended he]
  exact .parted List.nil_prefix
    (Session.parted_of_errors herr he.advance ((statements expr closes hc).leads t))

include h

/-- Where the sessions part, the first one has read its last statement.  The induction is on what is
left of the source. -/
theorem AreCausal.statements (hs : s.Abreast stop t) :
    Outcome stop Continues ((statements expr closes hc).run s)
      ((statements expr closes hc).run t) := by
  induction hn : s.cursor.size using Nat.strongRecOn generalizing s t with
  | ind n ih =>
    subst hn
    have hleads : ∀ v : Session,
        v.LeadsTo ((Grammar.statements expr closes hc).run v.next).2 := fun v =>
      v.leadsTo_next.trans ((Grammar.statements expr closes hc).leads v.next)
    have hcurrent := hs.cursor.current
    rw [run_statements (s := s), run_statements (s := t), ← hcurrent]
    by_cases hk : closes s.cursor.current.kind
    · rw [if_pos hk, if_pos hk]
      exact .same _ hs
    · rw [if_neg hk, if_neg hk]
      have hlt : ((recorded (Grammar.statement expr)).run s).2.next.cursor.size <
          s.cursor.size := size_next_statement_lt hc hk
      have hr := (h.statement hs).recorded
      generalize (recorded (Grammar.statement expr)).run s = r at *
      generalize (recorded (Grammar.statement expr)).run t = q at *
      cases hr with
      | @same u v o hu =>
        rcases hu.next with hn | he
        · have hrest := ih _ hlt hn rfl
          simp only
          generalize (Grammar.statements expr closes hc).run u.next = x at *
          generalize (Grammar.statements expr closes hc).run v.next = y at *
          cases hrest with
          | same ss hv => exact .same _ hv
          | parted hss hp => exact .parted (continues_append o hss) hp
        -- on the left this statement was the last one, on the right more may follow
        · simp only [run_statements_of_ended he]
          exact .parted (continues_toList o _)
            (Session.parted_of_errors hu.errors he.advance (hleads v))
      | @parted o o' u v _ hp =>
        have he : u.next.cursor.Ended stop := hp.ended
        simp only [run_statements_of_ended he]
        exact .parted (continues_toList o _) (hp.next.leadsTo (hleads v))

end Statements

include h

theorem AreCausal.block (hs : s.Abreast stop t) :
    (liftM (block expr) : Parse Block).Causal stop s t := by
  have hstatements : Outcome stop Continues
      ((Grammar.statements expr closesBlock rfl).run s.next)
      ((Grammar.statements expr closesBlock rfl).run t.next) := by
    rcases hs.next with hn | he
    · exact h.statements hn
    · exact outcome_statements_of_ended he hs.errors
  refine Outcome.lift (V := fun _ _ => True) ?_
  rw [run_block, run_block, ← hs.cursor.current]
  generalize (Grammar.statements expr closesBlock rfl).run s.next = r at *
  generalize (Grammar.statements expr closesBlock rfl).run t.next = q at *
  cases hstatements with
  | same ss hu => exact .same _ hu
  | parted _ hp => exact .parted trivial hp

/-! ### Operands and operations -/

/-- An operator and the operand behind it. -/
theorem AreCausal.operatorOperand (power : Token → Power) (f : Token → Expr → Expr)
    (hs : s.Abreast stop t) :
    (do let operator ← Walk.current
        Walk.advance
        let right ← expr (power operator)
        return f operator right : Parse Expr).Causal stop s t := by
  refine causal_current_bind hs (causal_advance_bind hs (fun hn => ?_) fun he => ?_)
  · exact (h.causal _ _ _ hn).bind (fun _ _ _ hu _ => .same _ hu) fun _ _ _ => rests_pure _
  · exact (h.rests _ _ he).bind fun _ => rests_pure _

theorem AreCausal.unary (hs : s.Abreast stop t) : (unary expr).Causal stop s t :=
  h.operatorOperand (fun _ => .unary) (fun o r => .unary o o.literal r) hs

theorem AreCausal.binary (l : Expr) (hs : s.Abreast stop t) : (binary expr l).Causal stop s t :=
  h.operatorOperand (fun o => o.kind.power) (fun o r => .binary o l o.literal r) hs

theorem AreCausal.grouped (hs : s.Abreast stop t) : (grouped expr).Causal stop s t := by
  refine causal_advance_bind hs (fun hn => ?_) fun he => ?_
  · refine (h.causal _ _ _ hn).bind (fun _ _ _ hu _ => ?_) fun _ _ he => rests_expect_bind nofun he
    exact causal_expect_bind nofun hu fun hn => .same _ hn
  · exact (h.rests _ _ he).bind fun _ => rests_expect_bind nofun he.advance

omit h in
/-- Behind the first branch, the source may have ended. -/
theorem rests_alternative {x : Parse Expr} {e : Expr} (he : s.cursor.advance.Ended stop) :
    (if s.cursor.peek.kind = .elseWord then x else return e).Rests stop s := by
  have hpeek : s.cursor.peek.kind ≠ .elseWord := by rw [he.kind_peek]; nofun
  rw [if_neg hpeek]
  exact rests_pure e

theorem AreCausal.conditional (hs : s.Abreast stop t) : (conditional expr).Causal stop s t := by
  refine causal_current_bind hs (causal_expect_bind nofun hs fun hn => ?_)
  -- wherever the source ends from here on, a token is missing, except before `else`
  refine causal_advance_bind hn (fun hn => ?_) fun he => ?_
  · refine (h.causal _ _ _ hn).bind (fun q u v hu _ => ?_) fun _ _ he => rests_expect_bind nofun he
    refine causal_expect_bind nofun hu fun hn => causal_expect_bind nofun hn fun hn => ?_
    refine (h.block hn).bind (fun b u v hu _ => ?_) fun b u he =>
      rests_peek_bind (rests_alternative he)
    refine causal_peek_bind hu ?_ rests_alternative
    by_cases hk : u.cursor.peek.kind = .elseWord
    · rw [if_pos hk]
      refine causal_advance_bind hu (fun hn => ?_) fun he => rests_expect_bind nofun he.advance
      refine causal_expect_bind nofun hn fun hn => ?_
      exact (h.block hn).bind (fun _ _ _ hu _ => .same _ hu) fun _ _ _ => rests_pure _
    · rw [if_neg hk]
      exact .same _ hu
  · exact (h.rests _ _ he).bind fun _ => rests_expect_bind nofun he.advance

theorem AreCausal.operand (hs : s.Abreast stop t) : (operand expr).Causal stop s t := by
  refine causal_current_bind hs ?_
  cases s.cursor.current.kind
  case ident => exact causal_current_bind hs (.same _ hs)
  case int =>
    refine causal_current_bind hs ?_
    cases Decimal.ofLiteral? s.cursor.current.literal with
    | none => exact .same _ hs
    | some n => exact .same _ hs
  case trueWord | falseWord => exact causal_current_bind hs (.same _ hs)
  case bang | minus => exact h.unary hs
  case lparen => exact h.grouped hs
  case ifWord => exact h.conditional hs
  all_goals exact .same _ hs

omit h in
theorem rests_operand (he : s.cursor.Ended stop) : (operand expr).Rests stop s := by
  rw [Parse.Rests, Grammar.operand, run_current_bind, he.kind]
  exact ⟨_, rfl, failsAt_error he.position⟩

omit h in
theorem rests_operations (p : Power) (l : Expr) (he : s.cursor.advance.Ended stop) :
    (operations expr p l).Rests stop s := by
  rw [Parse.Rests, run_operations, if_neg (he.not_lt_power p)]
  exact ⟨_, rfl, failsAt_ok l⟩

/-- The induction is on what is left of the source. -/
theorem AreCausal.operations (p : Power) (l : Expr) (hs : s.Abreast stop t) :
    (operations expr p l).Causal stop s t := by
  induction hn : s.cursor.size using Nat.strongRecOn generalizing s t l with
  | ind n ih =>
    subst hn
    rw [operations_eq]
    refine causal_peek_bind hs ?_ fun he => ?_
    · by_cases hp : p < s.cursor.peek.kind.power
      · rw [if_pos hp]
        have hlt : s.next.cursor.size < s.cursor.size :=
          Cursor.size_advance_lt (.inr (Kind.ne_eof_of_lt_power hp))
        refine causal_advance_bind hs (fun hn => ?_) fun he => ?_
        · refine (h.binary l hn).bind (fun l u v hu ha => ?_) fun l _ he => rests_operations p l he
          exact ih _ (Nat.lt_of_le_of_lt ha.size_le hlt) l hu rfl
        · exact absurd he.kind (Kind.ne_eof_of_lt_power hp)
      · rw [if_neg hp]
        exact .same _ hs
    · rw [if_neg (he.not_lt_power p)]
      exact rests_pure l

theorem AreCausal.expressionAbove (p : Power) (hs : s.Abreast stop t) :
    (expressionAbove expr p).Causal stop s t :=
  (h.operand hs).bind (fun l _ _ hu _ => h.operations p l hu) fun l _ he => rests_operations p l he

omit h in
theorem rests_expressionAbove (p : Power) (he : s.cursor.Ended stop) :
    (expressionAbove expr p).Rests stop s :=
  (rests_operand he).bind fun l => rests_operations p l he.advance

end Grammar

/-! ### Levels -/

section

variable {α : Type} {stop : Position} {s t : Session}

theorem Parse.Causal.nested {x : Parse α} (h : x.Causal stop s.deeper t.deeper) :
    (nested x).Causal stop s t := by
  unfold Parse.Causal at h ⊢
  rw [run_nested_deeper, run_nested_deeper]
  generalize x.run s.deeper = r at *
  generalize x.run t.deeper = q at *
  cases h with
  | same r h => exact .same r ⟨h.cursor, h.errors⟩
  | parted hf h => exact .parted hf ⟨h.ended, h.reports⟩

theorem Parse.Rests.nested {x : Parse α} (h : x.Rests stop s.deeper) :
    (nested x).Rests stop s := by
  obtain ⟨r, hr, hf⟩ := h
  rw [Parse.Rests, run_nested_deeper, hr]
  exact ⟨r, rfl, hf⟩

theorem areCausal_expressionOn (limit levels : Nat) :
    Grammar.AreCausal stop (expressionOn limit levels) := by
  induction levels with
  | zero =>
    refine ⟨fun p s t hs => causal_current_bind hs (.same _ hs), fun p s he => ?_⟩
    exact ⟨_, rfl, failsAt_error he.position⟩
  | succ levels ih =>
    refine ⟨fun p s t hs => ?_, fun p s he => ?_⟩
    · have hs : s.deeper.Abreast stop t.deeper := ⟨hs.cursor, hs.errors⟩
      exact (ih.expressionAbove p hs).nested
    · have he : s.deeper.cursor.Ended stop := he
      exact (Grammar.rests_expressionAbove p he).nested

end

end ExprLang
