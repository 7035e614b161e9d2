import ExprLang.Proofs.Parsing.Depth
import ExprLang.Proofs.Recovery.Spans

/-!
# Every parse keeps the account

From any token on, a parse of the grammar passes tokens that are accounted for.  If it does not
fail, it ends on a token that is of use, and what it has read spans the tokens from the first one to
this one; if it fails, it does so on a token that the failure is blamed on (`Traced`).  There is one
lemma for each form, under the hypothesis that expressions keep the account (`Traces`), and the
induction is on the levels that may be opened (`traces_expressionOn`).  So what is read of a source
spans its tokens, whatever was reported on the way (`spans_parse`).
-/

namespace ExprLang

open Parse Walk Grammar

variable {α β : Type}

/-- From the token `j` a parse came to a token that is accounted for up to there: one of use, with a
value that has the property `V` there, or one that the failure is blamed on. -/
inductive Traced (limit : Nat) (c : Cursor) (i : Nat) (before : List Diagnostic) (j : Nat)
    (V : α → Nat → Prop) : Except Diagnostic α × Session → Prop
  | ok {a : α} {k : Nat} {t : Session} (ht : Reached limit c i before k t) (hk : j ≤ k)
      (hu : (c.token k).Usable) (hv : V a k) : Traced limit c i before j V (.ok a, t)
  | error {d : Diagnostic} {k : Nat} {t : Session} (ht : Reached limit c i before k t) (hk : j ≤ k)
      (hb : Blames limit c k d) : Traced limit c i before j V (.error d, t)

/-- Expressions keep the account, and span what they read on `n` levels at most. -/
def Traces (limit : Nat) (c : Cursor) (i : Nat) (before : List Diagnostic) (n : Nat)
    (expr : Power → Parse Expr) : Prop :=
  ∀ p s j, Reached limit c i before j s →
    Traced limit c i before j (fun e k => Spans c n (.expr e) j k) ((expr p).run s)

section

variable {limit i j k n : Nat} {c : Cursor} {before : List Diagnostic} {s : Session}

/-! ### Sequences -/

section Sequences

variable {V : α → Nat → Prop} {W : β → Nat → Prop}

theorem Traced.from {r : Except Diagnostic α × Session} (h : Traced limit c i before k V r)
    (hj : j ≤ k) : Traced limit c i before j V r := by
  cases h with
  | ok ht hk hu hv => exact .ok ht (Nat.le_trans hj hk) hu hv
  | error ht hk hb => exact .error ht (Nat.le_trans hj hk) hb

theorem Traced.bind {x : Parse α} {f : α → Parse β} (h : Traced limit c i before j V (x.run s))
    (hf : ∀ a k t, V a k → Reached limit c i before k t → (c.token k).Usable →
      s.cursor.Ahead t.cursor → Traced limit c i before k W ((f a).run t)) :
    Traced limit c i before j W ((x >>= f).run s) := by
  have ha : s.cursor.Ahead (x.run s).2.cursor := x.attempt.ahead s
  rw [Parse.run_bind]
  generalize x.run s = r at *
  cases h with
  | ok ht hk hu hv => exact (hf _ _ _ hv ht hu ha).from hk
  | error ht hk hb => exact .error ht hk hb

theorem traced_advance_bind {f : Unit → Parse β} (hs : Reached limit c i before j s)
    (hu : (c.token j).Usable)
    (hf : Reached limit c i before (j + 1) s.next →
      Traced limit c i before (j + 1) W ((f ()).run s.next)) :
    Traced limit c i before j W (((liftM Walk.advance : Parse Unit) >>= f).run s) := by
  rw [run_advance_bind]
  exact (hf (hs.next hu)).from (Nat.le_succ j)

theorem traced_expect_bind {e : Kind} {f : Unit → Parse β} (hs : Reached limit c i before j s)
    (hu : (c.token j).Usable) (he : e.isExpected)
    (hf : (c.token (j + 1)).kind = e → Reached limit c i before (j + 1) s.next →
      Traced limit c i before (j + 1) W ((f ()).run s.next)) :
    Traced limit c i before j W ((expect e >>= f).run s) := by
  rw [Parse.run_bind, run_expect, hs.peek]
  by_cases hk : (c.token (j + 1)).kind = e
  · rw [if_pos hk]
    exact (hf hk (hs.next hu)).from (Nat.le_succ j)
  · rw [if_neg hk]
    exact .error hs (Nat.le_refl j) (.unexpected hu he hk)

end Sequences

/-! ### Forms without expressions -/

theorem traced_ident (hs : Reached limit c i before j s) (hk : (c.token j).kind = .ident) :
    Traced limit c i before j (fun e k => Spans c (n + 1) (.expr e) j k) (Grammar.ident.run s) := by
  rw [run_ident, hs.current]
  exact .ok hs (Nat.le_refl j) (Token.usable_of_kind hk rfl) (.ident hk)

theorem traced_number (hs : Reached limit c i before j s) (hk : (c.token j).kind = .int) :
    Traced limit c i before j (fun e k => Spans c (n + 1) (.expr e) j k) (number.run s) := by
  rw [number, run_current_bind, hs.current]
  cases hv : Decimal.ofLiteral? (c.token j).literal with
  | none => exact .error hs (Nat.le_refl j) (.badNumber hk hv)
  | some v =>
    have hu : (c.token j).Usable := Token.usable_of_kind hk (by rw [Kind.isUsable, hv]; rfl)
    exact .ok hs (Nat.le_refl j) hu (.number hk hv)

theorem traced_boolean (hs : Reached limit c i before j s)
    (hk : (c.token j).kind = .trueWord ∨ (c.token j).kind = .falseWord) :
    Traced limit c i before j (fun e k => Spans c (n + 1) (.expr e) j k) (boolean.run s) := by
  rw [run_boolean, hs.current]
  have hu : (c.token j).Usable :=
    hk.elim (Token.usable_of_kind · rfl) (Token.usable_of_kind · rfl)
  exact .ok hs (Nat.le_refl j) hu (.boolean hk)

/-- A semicolon behind a statement belongs to it. -/
theorem traced_skipSemicolon (hs : Reached limit c i before j s) (hu : (c.token j).Usable) :
    Traced limit c i before j (fun (_ : Unit) k => c.Ends j k)
      ((liftM skipSemicolon : Parse Unit).run s) := by
  rw [run_lift, skipSemicolon, Walk.run_bind, run_peek, hs.peek]
  by_cases hk : (c.token (j + 1)).kind = .semicolon
  · rw [if_pos hk]
    exact .ok (hs.next hu) (Nat.le_succ j) (Token.usable_of_kind hk rfl) (.inr ⟨rfl, hk⟩)
  · rw [if_neg hk]
    exact .ok hs (Nat.le_refl j) hu (.inl rfl)

/-! ### Statements -/

section Forms

variable {expr : Power → Parse Expr} (h : Traces limit c i before n expr)

include h

/-- The value of a statement and the semicolon that may stand behind it; the statement begins with
the token `m`. -/
theorem Traces.value {f : Expr → Stmt} {m : Nat} (hs : Reached limit c i before j s)
    (hf : ∀ e k l, Spans c n (.expr e) j k → c.Ends k l → Spans c n (.stmt (f e)) m l) :
    Traced limit c i before j (fun st k => Spans c n (.stmt st) m k)
      ((do let v ← expr .lowest; skipSemicolon; return f v : Parse Stmt).run s) := by
  refine (h _ s j hs).bind fun e k t he ht hu _ => ?_
  refine (traced_skipSemicolon ht hu).bind fun _ l u hl hl' hu' _ => ?_
  exact .ok hl' (Nat.le_refl l) hu' (hf e k l he hl)

theorem Traces.binding (hs : Reached limit c i before j s) (hk : (c.token j).kind = .letWord) :
    Traced limit c i before j (fun st k => Spans c n (.stmt st) j k)
      ((binding expr).run s) := by
  rw [Grammar.binding, run_current_bind, hs.current]
  refine traced_expect_bind hs (Token.usable_of_kind hk rfl) rfl fun hx h1 => ?_
  rw [run_current_bind, h1.current]
  refine traced_expect_bind h1 (Token.usable_of_kind hx rfl) rfl fun ha h2 => ?_
  refine traced_advance_bind h2 (Token.usable_of_kind ha rfl) fun h3 => ?_
  exact h.value h3 fun e k l he hl => .binding hk hx ha he hl

theorem Traces.result (hs : Reached limit c i before j s)
    (hk : (c.token j).kind = .returnWord) :
    Traced limit c i before j (fun st k => Spans c n (.stmt st) j k) ((result expr).run s) := by
  rw [Grammar.result, run_current_bind, hs.current]
  refine traced_advance_bind hs (Token.usable_of_kind hk rfl) fun h1 => ?_
  exact h.value h1 fun e k l he hl => .result hk he hl

theorem Traces.bareExpression (hs : Reached limit c i before j s) :
    Traced limit c i before j (fun st k => Spans c n (.stmt st) j k)
      ((bareExpression expr).run s) := by
  rw [Grammar.bareExpression, run_current_bind, hs.current]
  exact h.value hs fun e k l he hl => .expression he hl

theorem Traces.statement (hs : Reached limit c i before j s) :
    Traced limit c i before j (fun st k => Spans c n (.stmt st) j k)
      ((statement expr).run s) := by
  rw [Grammar.statement, run_current_bind, hs.current]
  cases hk : (c.token j).kind
  case letWord => exact h.binding hs hk
  case returnWord => exact h.result hs hk
  all_goals exact h.bareExpression hs

/-- A list of statements comes to the token that closes it.  The induction is on what is left of the
source. -/
theorem Traces.statements {closes : Kind → Bool} {hc : closes .eof}
    (hs : Reached limit c i before j s) :
    ∃ k, Reached limit c i before k ((statements expr closes hc).run s).2 ∧
      closes (c.token k).kind ∧
      Spans c n (.stmts ((statements expr closes hc).run s).1) j k := by
  induction hn : s.cursor.size using Nat.strongRecOn generalizing s j with
  | ind m ih =>
    subst hn
    rw [run_statements, hs.current]
    by_cases hk : closes (c.token j).kind
    · rw [if_pos hk]
      exact ⟨j, hs, hk, .nil⟩
    · rw [if_neg hk]
      have hlt : ((recorded (Grammar.statement expr)).run s).2.next.cursor.size <
          s.cursor.size := size_next_statement_lt hc (by rwa [hs.current])
      have hr := h.statement hs
      rw [run_recorded] at hlt ⊢
      generalize (Grammar.statement expr).run s = r at *
      -- the loop steps over the last token of the statement, or over the one it failed on
      cases hr with
      | @ok st l t ht hl hu hv =>
        obtain ⟨k, hk, hcl, hss⟩ := ih _ hlt (ht.next hu) rfl
        exact ⟨k, hk, hcl, .cons hv hss⟩
      | @error d l t ht hl hb =>
        obtain ⟨k, hk, hcl, hss⟩ := ih _ hlt (ht.reportNext hb) rfl
        exact ⟨k, hk, hcl, .skip hl hss⟩

theorem Traces.block (hs : Reached limit c i before j s) (hk : (c.token j).kind = .lbrace) :
    Traced limit c i before j (fun b k => Spans c n (.block b) j k)
      ((liftM (block expr) : Parse Block).run s) := by
  obtain ⟨k, ht, hcl, hss⟩ : ∃ k, Reached limit c i before k
      ((Grammar.statements expr closesBlock rfl).run s.next).2 ∧ closesBlock (c.token k).kind ∧
      Spans c n (.stmts ((Grammar.statements expr closesBlock rfl).run s.next).1) (j + 1) k :=
    h.statements (hs.next (Token.usable_of_kind hk rfl))
  have hend : (c.token k).kind = .rbrace ∨ (c.token k).kind = .eof := by
    simpa [closesBlock] using hcl
  have hu : (c.token k).Usable :=
    hend.elim (Token.usable_of_kind · rfl) (Token.usable_of_kind · rfl)
  rw [run_lift, run_block, hs.current]
  exact .ok ht (Nat.le_of_succ_le hss.le) hu (.block hk hss hend)

/-! ### Operands and operations -/

theorem Traces.unary (hs : Reached limit c i before j s)
    (hk : (c.token j).kind = .bang ∨ (c.token j).kind = .minus) :
    Traced limit c i before j (fun e k => Spans c (n + 1) (.expr e) j k)
      ((unary expr).run s) := by
  have hu : (c.token j).Usable :=
    hk.elim (Token.usable_of_kind · rfl) (Token.usable_of_kind · rfl)
  rw [Grammar.unary, run_current_bind, hs.current]
  refine traced_advance_bind hs hu fun h1 => ?_
  exact (h _ _ _ h1).bind fun e k t he ht hut _ => .ok ht (Nat.le_refl k) hut (.unary hk he)

/-- An operation, from its operator on; its left side begins with the token `m`. -/
theorem Traces.binary {l : Expr} {m : Nat} (hl : Spans c (n + 1) (.expr l) m j)
    (hs : Reached limit c i before (j + 1) s) (ho : (c.token (j + 1)).kind.operator?.isSome) :
    Traced limit c i before (j + 1) (fun e k => Spans c (n + 1) (.expr e) m k)
      ((binary expr l).run s) := by
  rw [Grammar.binary, run_current_bind, hs.current]
  refine traced_advance_bind hs (Token.usable_of_operator ho) fun h1 => ?_
  exact (h _ _ _ h1).bind fun e k t he ht hut _ => .ok ht (Nat.le_refl k) hut (.binary hl ho he)

theorem Traces.grouped (hs : Reached limit c i before j s) (hk : (c.token j).kind = .lparen) :
    Traced limit c i before j (fun e k => Spans c (n + 1) (.expr e) j k)
      ((grouped expr).run s) := by
  rw [Grammar.grouped]
  refine traced_advance_bind hs (Token.usable_of_kind hk rfl) fun h1 => ?_
  refine (h _ _ _ h1).bind fun e k t he ht hu _ => ?_
  refine traced_expect_bind ht hu rfl fun hr h2 => ?_
  exact .ok h2 (Nat.le_refl _) (Token.usable_of_kind hr rfl) (.grouped hk he hr)

theorem Traces.conditional (hs : Reached limit c i before j s)
    (hk : (c.token j).kind = .ifWord) :
    Traced limit c i before j (fun e k => Spans c (n + 1) (.expr e) j k)
      ((conditional expr).run s) := by
  rw [Grammar.conditional, run_current_bind, hs.current]
  refine traced_expect_bind hs (Token.usable_of_kind hk rfl) rfl fun hl h1 => ?_
  refine traced_advance_bind h1 (Token.usable_of_kind hl rfl) fun h2 => ?_
  refine (h _ _ _ h2).bind fun q l t hq ht hu _ => ?_
  refine traced_expect_bind ht hu rfl fun hr h3 => ?_
  refine traced_expect_bind h3 (Token.usable_of_kind hr rfl) rfl fun hlb h4 => ?_
  refine (h.block h4 hlb).bind fun b m u hb hbu hub _ => ?_
  rw [run_peek_bind, hbu.peek]
  by_cases he : (c.token (m + 1)).kind = .elseWord
  · rw [if_pos he]
    refine traced_advance_bind hbu hub fun h5 => ?_
    refine traced_expect_bind h5 (Token.usable_of_kind he rfl) rfl fun hlb' h6 => ?_
    refine (h.block h6 hlb').bind fun a o v ha hv hva _ => ?_
    exact .ok hv (Nat.le_refl o) hva (.conditionalElse hk hl hq hr hb he ha)
  · rw [if_neg he]
    exact .ok hbu (Nat.le_refl m) hub (.conditional hk hl hq hr hb)

theorem Traces.operand (hs : Reached limit c i before j s) :
    Traced limit c i before j (fun e k => Spans c (n + 1) (.expr e) j k)
      ((operand expr).run s) := by
  have hfail : (∀ expr, operand? expr (c.token j).kind = none) →
      Traced limit c i before j (fun e k => Spans c (n + 1) (.expr e) j k)
        ((Parse.failAt (c.token j) (.noOperand (c.token j).kind) : Parse Expr).run s) :=
    fun hn => .error hs (Nat.le_refl j) (.noOperand hn)
  rw [Grammar.operand, run_current_bind, hs.current]
  cases hk : (c.token j).kind
  case ident => exact traced_ident hs hk
  case int => exact traced_number hs hk
  case trueWord => exact traced_boolean hs (.inl hk)
  case falseWord => exact traced_boolean hs (.inr hk)
  case bang => exact h.unary hs (.inl hk)
  case minus => exact h.unary hs (.inr hk)
  case lparen => exact h.grouped hs hk
  case ifWord => exact h.conditional hs hk
  all_goals
    rw [hk] at hfail
    exact hfail fun _ => rfl

/-- An expression, which begins with the token `m`, and the operations behind it.  The induction is
on what is left of the source. -/
theorem Traces.operations {p : Power} {l : Expr} {m : Nat} (hl : Spans c (n + 1) (.expr l) m j)
    (hs : Reached limit c i before j s) (hu : (c.token j).Usable) :
    Traced limit c i before j (fun e k => Spans c (n + 1) (.expr e) m k)
      ((operations expr p l).run s) := by
  induction hn : s.cursor.size using Nat.strongRecOn generalizing s j l with
  | ind size ih =>
    subst hn
    rw [run_operations, hs.peek]
    by_cases hp : p < (c.token (j + 1)).kind.power
    · rw [if_pos hp]
      have ho := Kind.isSome_operator?_of_lt_power hp
      have hlt : s.next.cursor.size < s.cursor.size := by
        refine Cursor.size_advance_lt (.inr ?_)
        rw [hs.peek]
        exact Kind.ne_eof_of_lt_power hp
      have hb := (h.binary hl (hs.next hu) ho).bind fun e k t he ht hut ha =>
        ih _ (Nat.lt_of_le_of_lt ha.size_le hlt) he ht hut rfl
      exact hb.from (Nat.le_succ j)
    · rw [if_neg hp]
      exact .ok hs (Nat.le_refl j) hu hl

theorem Traces.expressionAbove {p : Power} (hs : Reached limit c i before j s) :
    Traced limit c i before j (fun e k => Spans c (n + 1) (.expr e) j k)
      ((expressionAbove expr p).run s) :=
  (h.operand hs).bind fun _ _ _ he ht hu _ => h.operations he ht hu

end Forms

/-! ### Levels -/

theorem traces_expressionOn (levels : Nat) :
    Traces limit c i before levels (expressionOn limit levels) := by
  induction levels with
  | zero =>
    intro p s j hs
    rw [expressionOn, run_current_bind, hs.current]
    exact .error hs (Nat.le_refl j) .tooDeep
  | succ levels ih =>
    intro p s j hs
    have hr : Traced limit c i before j (fun e k => Spans c (levels + 1) (.expr e) j k)
        ((Grammar.expressionAbove (expressionOn limit levels) p).run s.deeper) :=
      ih.expressionAbove hs.deeper
    rw [expressionOn, run_nested_deeper]
    generalize (Grammar.expressionAbove (expressionOn limit levels) p).run s.deeper = r at *
    cases hr with
    | ok ht hk hu hv => exact .ok ht.shallower hk hu hv
    | error ht hk hb => exact .error ht.shallower hk hb

end

/-- The statements of a program span the tokens of its source up to the end token. -/
theorem spans_parse (source : String) (file : Option String) :
    ∃ j, Spans (Session.ofSource source file).cursor maxLevels
      (.stmts (parse source file).1.statements) 0 j := by
  have hspans : ∀ s : Session, ∃ j, Reached maxLevels s.cursor 0 s.errors.toList j
      (sourceStatements.run s).2 ∧ (s.cursor.token j).kind == .eof ∧
      Spans s.cursor maxLevels (.stmts (sourceStatements.run s).1) 0 j :=
    fun s => (traces_expressionOn maxLevels).statements (.refl rfl)
  obtain ⟨j, -, -, hss⟩ := hspans (Session.ofSource source file)
  rw [parse_eq_run]
  exact ⟨j, hss⟩

end ExprLang
