import ExprLang.Proofs.Parsing.Forms
import ExprLang.Proofs.Parsing.Stream

/-!
# What becomes of a closing brace

A block is to end on its closing brace, also if statements in it fail.  A statement that fails
leaves the cursor where it gave up, and the loop steps over the token there: if that is the brace,
the block has lost it.

`Stays` says how far a parse comes that begins before a brace: to a token before it, or, if it
fails, onto the brace itself.  The latter happens only where an operand is missing, so that the
token before the brace awaits one (`Kind.awaitsOperand`).
-/

namespace ExprLang

/-- Behind a token of such a kind an operand may be due. -/
def Kind.awaitsOperand : Kind → Bool
  | returnWord | assign | lparen | bang | minus | plus | star | slash | less | greater | equal
  | notEqual => true
  | _ => false

theorem Kind.awaitsOperand_of_lt_power {p : Power} {k : Kind} (h : p < k.power) :
    k.awaitsOperand := by
  cases k <;> first | rfl | exact absurd h p.not_lt_lowest

def BraceFree (us : List Token) : Prop := ∀ t ∈ us, t.kind ≠ .lbrace ∧ t.kind ≠ .rbrace

theorem BraceFree.of_suffix {us vs : List Token} (h : BraceFree us) (hv : vs <:+ us) :
    BraceFree vs :=
  fun t ht => h t (hv.subset ht)

theorem BraceFree.tail {t : Token} {us : List Token} (h : BraceFree (t :: us)) : BraceFree us :=
  h.of_suffix (List.suffix_cons t us)

/-- Behind these tokens an operand is due; of no token at all nothing is known. -/
def Due (us : List Token) : Prop := us = [] ∨ ∃ vs t, us = vs ++ [t] ∧ t.kind.awaitsOperand

theorem Due.of_suffix {us vs : List Token} (h : Due vs) (hv : vs <:+ us) (hne : vs ≠ []) :
    Due us := by
  obtain ⟨ws, rfl⟩ := hv
  obtain ⟨xs, t, rfl, ht⟩ := h.resolve_left hne
  exact .inr ⟨ws ++ xs, t, by simp, ht⟩

/-- The diagnostic says that there is no operand at the token, or none within the bound. -/
def Diagnostic.Misses (d : Diagnostic) (limit : Nat) (t : Token) : Prop :=
  d.position = t.position ∧ (d.cause = .noOperand t.kind ∨ d.cause = .tooDeep limit)

namespace Grammar

open Parse Walk

variable {limit : Nat} {rb : Token} {rest us : List Token} {α β : Type}

/-- From the first of the tokens `us`, behind which the brace stands, a parse came this far: to a
token before the brace, or onto the brace, where it fails for want of an operand. -/
def Stays (limit : Nat) (rb : Token) (rest us : List Token) (r : Except Diagnostic α × Session) :
    Prop :=
  ∃ vs, vs <:+ us ∧ r.2.cursor.On (vs ++ rb :: rest) ∧
    (vs = [] → ∃ d, r.1 = .error d ∧ d.Misses limit rb ∧ Due us)

/-! ### Sequences -/

section Sequences

variable {s : Session}

theorem stays_of_ne_nil {r : Except Diagnostic α × Session} (hne : us ≠ [])
    (hr : r.2.cursor.On (us ++ rb :: rest)) : Stays limit rb rest us r :=
  ⟨us, List.suffix_rfl, hr, fun he => absurd he hne⟩

/-- A parse that begins one token further on. -/
theorem Stays.cons {t : Token} {r : Except Diagnostic α × Session} (h : Stays limit rb rest us r)
    (ht : us = [] → t.kind.awaitsOperand) : Stays limit rb rest (t :: us) r := by
  obtain ⟨vs, hv, hr, hm⟩ := h
  refine ⟨vs, hv.trans (List.suffix_cons t us), hr, fun he => ?_⟩
  obtain ⟨d, hd, hmiss, hdue⟩ := hm he
  refine ⟨d, hd, hmiss, ?_⟩
  by_cases hus : us = []
  · subst hus
    exact .inr ⟨[], t, rfl, ht rfl⟩
  · exact hdue.of_suffix (List.suffix_cons t us) hus

/-- What comes behind a parse begins before the brace. -/
theorem Stays.bind {x : Parse α} {f : α → Parse β} (hx : Stays limit rb rest us (x.run s))
    (hf : ∀ a t v vs, v :: vs <:+ us → t.cursor.On (v :: vs ++ rb :: rest) →
      Stays limit rb rest (v :: vs) ((f a).run t)) :
    Stays limit rb rest us ((x >>= f).run s) := by
  obtain ⟨vs, hv, hr, hm⟩ := hx
  rw [Parse.run_bind]
  rcases hxs : x.run s with ⟨d | a, t⟩
  · rw [hxs] at hr hm
    refine ⟨vs, hv, hr, fun he => ?_⟩
    obtain ⟨d', hd, hmiss⟩ := hm he
    cases hd
    exact ⟨d, rfl, hmiss⟩
  · rw [hxs] at hr hm
    cases vs with
    | nil =>
      obtain ⟨d, hd, -⟩ := hm rfl
      exact absurd hd nofun
    | cons v vs =>
      obtain ⟨ws, hw, hr', hm'⟩ := hf a t v vs hv hr
      refine ⟨ws, hw.trans hv, hr', fun he => ?_⟩
      obtain ⟨d, hd, hmiss, hdue⟩ := hm' he
      exact ⟨d, hd, hmiss, hdue.of_suffix hv nofun⟩

theorem Stays.bind_return {x : Parse α} {f : α → β} (hx : Stays limit rb rest us (x.run s)) :
    Stays limit rb rest us ((do let a ← x; return f a : Parse β).run s) :=
  hx.bind fun _ _ _ _ _ ht => stays_of_ne_nil nofun ht

/-- A token that is expected stands before the brace. -/
theorem stays_expect_bind {t : Token} {k : Kind} {f : Unit → Parse α} (hk : k ≠ rb.kind)
    (hs : s.cursor.On (t :: us ++ rb :: rest))
    (hf : ∀ v vs, us = v :: vs → v.kind = k → s.next.cursor.On (v :: vs ++ rb :: rest) →
      Stays limit rb rest (v :: vs) ((f ()).run s.next)) :
    Stays limit rb rest (t :: us) ((expect k >>= f).run s) := by
  have hp : s.cursor.peek.kind = headKind (us ++ rb :: rest) := hs.kind_peek
  rw [Parse.run_bind, run_expect]
  by_cases h : s.cursor.peek.kind = k
  · rw [if_pos h]
    cases us with
    | nil => exact absurd (h.symm.trans hp) hk
    | cons v vs => exact (hf v vs rfl (hp.symm.trans h) hs.advance).cons nofun
  · rw [if_neg h]
    exact stays_of_ne_nil nofun hs

end Sequences

/-! ### Expressions -/

/-- From wherever they begin before the brace, or on it, expressions come no further. -/
def StaysExpr (limit : Nat) (rb : Token) (rest : List Token) (expr : Power → Parse Expr) : Prop :=
  ∀ power s us, BraceFree us → s.cursor.On (us ++ rb :: rest) →
    Stays limit rb rest us ((expr power).run s)

section Forms

variable {expr : Power → Parse Expr} {s : Session} {t : Token} (hrb : rb.kind = .rbrace)
  (h : StaysExpr limit rb rest expr)

include h

theorem StaysExpr.unary (hb : BraceFree (t :: us)) (hs : s.cursor.On (t :: us ++ rb :: rest))
    (ht : t.kind.awaitsOperand) : Stays limit rb rest (t :: us) ((unary expr).run s) := by
  have hr := (h .unary s.next us hb.tail hs.advance).bind_return
    (f := Expr.unary s.cursor.current s.cursor.current.literal)
  exact hr.cons fun _ => ht

theorem StaysExpr.binary {left : Expr} (hb : BraceFree (t :: us))
    (hs : s.cursor.On (t :: us ++ rb :: rest)) (ht : t.kind.awaitsOperand) :
    Stays limit rb rest (t :: us) ((binary expr left).run s) := by
  have hr := (h s.cursor.current.kind.power s.next us hb.tail hs.advance).bind_return
    (f := Expr.binary s.cursor.current left s.cursor.current.literal)
  exact hr.cons fun _ => ht

include hrb

theorem StaysExpr.grouped (hb : BraceFree (t :: us)) (hs : s.cursor.On (t :: us ++ rb :: rest))
    (ht : t.kind.awaitsOperand) : Stays limit rb rest (t :: us) ((grouped expr).run s) := by
  have hr : Stays limit rb rest us ((do
      let inner ← expr .lowest
      expect .rparen
      return inner : Parse Expr).run s.next) := by
    refine (h .lowest s.next us hb.tail hs.advance).bind fun e u v vs _ hu => ?_
    refine stays_expect_bind (by rw [hrb]; decide) hu fun w ws _ _ hw => ?_
    exact stays_of_ne_nil nofun hw
  exact hr.cons fun _ => ht

/-- Before the brace there is no other one, so the block behind a condition is missing. -/
theorem StaysExpr.conditional (hb : BraceFree (t :: us))
    (hs : s.cursor.On (t :: us ++ rb :: rest)) :
    Stays limit rb rest (t :: us) ((conditional expr).run s) := by
  rw [Grammar.conditional, run_current_bind]
  refine stays_expect_bind (by rw [hrb]; decide) hs fun v vs hus hv hvs => ?_
  subst hus
  have hlparen : vs = [] → v.kind.awaitsOperand := fun _ => by
    rw [hv]
    rfl
  rw [run_advance_bind]
  have hc := h .lowest s.next.next vs hb.tail.tail hvs.advance
  refine Stays.cons (hc.bind fun c u w ws hws hu => ?_) hlparen
  refine stays_expect_bind (by rw [hrb]; decide) hu fun x xs hx _ hxs => ?_
  subst hx
  refine stays_expect_bind (by rw [hrb]; decide) hxs fun y ys hy hk _ => ?_
  subst hy
  exact absurd hk ((hb.tail.tail.of_suffix hws).tail.tail y (List.mem_cons_self ..)).1

theorem StaysExpr.operand (hb : BraceFree us) (hs : s.cursor.On (us ++ rb :: rest)) :
    Stays limit rb rest us ((operand expr).run s) := by
  rw [Grammar.operand, run_current_bind]
  cases us with
  | nil =>
    have hcur : s.cursor.current = rb := hs.current_eq
    have hnone : operand? expr rb.kind = none := by
      rw [hrb]
      rfl
    rw [hcur, hnone]
    exact ⟨[], List.suffix_rfl, hs, fun _ => ⟨_, rfl, ⟨rfl, .inl rfl⟩, .inl rfl⟩⟩
  | cons t us =>
    have hcur : s.cursor.current = t := hs.current_eq
    rw [hcur]
    cases hk : t.kind
    case bang => exact h.unary hb hs (by rw [hk]; rfl)
    case minus => exact h.unary hb hs (by rw [hk]; rfl)
    case lparen => exact h.grouped hrb hb hs (by rw [hk]; rfl)
    case ifWord => exact h.conditional hrb hb hs
    case int =>
      refine stays_of_ne_nil nofun ?_
      change (number.run s).2.cursor.On _
      rw [number, run_current_bind]
      split
      · exact hs
      · exact hs
    all_goals exact stays_of_ne_nil nofun hs

/-- The induction is on how many tokens are left before the brace. -/
theorem StaysExpr.operations {power : Power} {left : Expr} (hb : BraceFree (t :: us))
    (hs : s.cursor.On (t :: us ++ rb :: rest)) :
    Stays limit rb rest (t :: us) ((operations expr power left).run s) := by
  induction hl : us.length using Nat.strongRecOn generalizing s t us left with
  | ind l ih =>
    subst hl
    rw [run_operations]
    by_cases hp : power < s.cursor.peek.kind.power
    · rw [if_pos hp]
      cases us with
      | nil =>
        have hk : s.cursor.peek.kind = rb.kind := hs.kind_peek
        rw [hk, hrb] at hp
        exact absurd hp power.not_lt_lowest
      | cons op us =>
        have hk : s.cursor.peek.kind = op.kind := hs.kind_peek
        rw [hk] at hp
        have hop := Kind.awaitsOperand_of_lt_power hp
        have hbin : Stays limit rb rest (op :: us) ((Grammar.binary expr left).run s.next) :=
          h.binary hb.tail (s := s.next) hs.advance hop
        refine Stays.cons (hbin.bind fun l u v vs hv hu => ?_) nofun
        have hlt : vs.length < (op :: us).length := by
          have := hv.length_le
          simp only [List.length_cons] at this ⊢
          omega
        exact ih _ hlt (hb.tail.of_suffix hv) hu rfl
    · rw [if_neg hp]
      exact stays_of_ne_nil nofun hs

theorem StaysExpr.expressionAbove {power : Power} (hb : BraceFree us)
    (hs : s.cursor.On (us ++ rb :: rest)) :
    Stays limit rb rest us ((expressionAbove expr power).run s) :=
  (h.operand hrb hb hs).bind fun _ _ _ _ hv hu => h.operations hrb (hb.of_suffix hv) hu

/-! ### Statements -/

/-- The value of a statement and the semicolon that may stand behind it. -/
theorem StaysExpr.value (f : Expr → Stmt) (hb : BraceFree us)
    (hs : s.cursor.On (us ++ rb :: rest)) :
    Stays limit rb rest us
      ((do let v ← expr .lowest; skipSemicolon; return f v : Parse Stmt).run s) := by
  refine (h .lowest s us hb hs).bind fun e u v vs hv hu => ?_
  have hp : u.cursor.peek.kind = headKind (vs ++ rb :: rest) := hu.kind_peek
  change Stays limit rb rest (v :: vs) (.ok (f e), (skipSemicolon.run u).2)
  unfold skipSemicolon
  rw [Walk.run_bind, run_peek]
  by_cases hk : u.cursor.peek.kind = .semicolon
  · rw [if_pos hk]
    cases vs with
    | nil =>
      have hsemi : rb.kind = .semicolon := hp.symm.trans hk
      rw [hrb] at hsemi
      exact absurd hsemi nofun
    | cons w ws => exact Stays.cons (stays_of_ne_nil nofun hu.advance) nofun
  · rw [if_neg hk]
    exact stays_of_ne_nil nofun hu

theorem StaysExpr.statement (hb : BraceFree (t :: us)) (hs : s.cursor.On (t :: us ++ rb :: rest)) :
    Stays limit rb rest (t :: us) ((statement expr).run s) := by
  have hcur : s.cursor.current = t := hs.current_eq
  have bare : Stays limit rb rest (t :: us) ((bareExpression expr).run s) := by
    rw [bareExpression, run_current_bind]
    exact h.value hrb _ hb hs
  rw [Grammar.statement, run_current_bind, hcur]
  cases hk : t.kind
  case letWord =>
    change Stays limit rb rest (t :: us) ((binding expr).run s)
    rw [binding, run_current_bind]
    refine stays_expect_bind (by rw [hrb]; decide) hs fun v vs hus _ hvs => ?_
    subst hus
    rw [run_current_bind]
    refine stays_expect_bind (by rw [hrb]; decide) hvs fun w ws hws hw hon => ?_
    subst hws
    rw [run_advance_bind]
    have hv := h.value (s := s.next.next.next) hrb
      (Stmt.binding s.cursor.current ⟨s.next.cursor.current, s.next.cursor.current.literal⟩)
      hb.tail.tail.tail hon.advance
    exact hv.cons fun _ => by rw [hw]; rfl
  case returnWord =>
    change Stays limit rb rest (t :: us) ((result expr).run s)
    rw [result, run_current_bind, run_advance_bind]
    have hv := h.value (s := s.next) hrb (Stmt.result s.cursor.current) hb.tail hs.advance
    exact hv.cons fun _ => by rw [hk]; rfl
  all_goals exact bare

end Forms

theorem staysExpr_expressionOn (hrb : rb.kind = .rbrace) (levels : Nat) :
    StaysExpr limit rb rest (expressionOn limit levels) := by
  induction levels with
  | zero =>
    intro power s us hb hs
    cases us with
    | nil =>
      have hcur : s.cursor.current = rb := hs.current_eq
      have hpos : s.cursor.current.position = rb.position := by rw [hcur]
      exact ⟨[], List.suffix_rfl, hs, fun _ => ⟨_, rfl, ⟨hpos, .inr rfl⟩, .inl rfl⟩⟩
    | cons t us => exact stays_of_ne_nil nofun hs
  | succ levels ih =>
    intro power s us hb hs
    have hd : s.deeper.cursor.On (us ++ rb :: rest) := hs
    have hr : Stays limit rb rest us ((Grammar.expressionAbove (expressionOn limit levels) power).run
        s.deeper) := ih.expressionAbove hrb hb hd
    exact hr

theorem staysExpr_expressionWithin (hrb : rb.kind = .rbrace) :
    StaysExpr limit rb rest (expressionWithin limit) :=
  fun power s => staysExpr_expressionOn hrb (limit - s.depth) power s

/-! ### Lists of statements -/

/-- The list that begins at the first session begins a statement at the second one. -/
inductive Begins (expr : Power → Parse Expr) (closes : Kind → Bool) : Session → Session → Prop
  | first {s : Session} (hc : ¬ closes s.cursor.current.kind) : Begins expr closes s s
  | later {s u : Session} (hc : ¬ closes s.cursor.current.kind)
      (h : Begins expr closes ((recorded (statement expr)).run s).2.next u) : Begins expr closes s u

/-- The statement that begins here fails with `d`, on the first of the tokens `ts`. -/
def FailsOn (expr : Power → Parse Expr) (ts : List Token) (s : Session) (d : Diagnostic) : Prop :=
  ∃ t, (statement expr).run s = (.error d, t) ∧ t.cursor.On ts

section Lists

variable {expr : Power → Parse Expr} {s u : Session} {t : Token}

theorem cursor_recorded (x : Parse α) (s : Session) :
    ((recorded x).run s).2.cursor = (x.run s).2.cursor := by
  rw [run_recorded]
  rcases x.run s with ⟨d | a, t⟩
  · rfl
  · rfl

theorem not_begins_of_closes {closes : Kind → Bool} (hc : closes s.cursor.current.kind) :
    ¬ Begins expr closes s u := by
  intro h
  cases h with
  | first hc' => exact hc' hc
  | later hc' => exact hc' hc

/-- The statements that begin in a list: the first one, and those of the list behind it. -/
theorem forall_begins_iff {closes : Kind → Bool} (hc : ¬ closes s.cursor.current.kind)
    {P : Session → Prop} :
    (∀ u, Begins expr closes s u → P u) ↔
      P s ∧ ∀ u, Begins expr closes ((recorded (statement expr)).run s).2.next u → P u := by
  constructor
  · intro h
    exact ⟨h s (.first hc), fun u hu => h u (.later hc hu)⟩
  · intro h u hu
    cases hu with
    | first => exact h.1
    | later _ hu => exact h.2 u hu

theorem Begins.ahead {closes : Kind → Bool} (h : Begins expr closes s u) :
    s.cursor.Ahead u.cursor := by
  induction h with
  | first => exact .refl _
  | later _ _ ih => exact (((recorded (statement expr)).ahead _).trans (.advance _)).trans ih

/-- No way leads back onto a token. -/
theorem not_on_of_ahead {c d : Cursor} (hc : c.On rest) (h : c.Ahead d) : ¬ d.On (t :: rest) := by
  intro hd
  obtain ⟨us, hu, hd'⟩ := h.on hc
  have heq := hd.unique hd'
  have hl := hu.length_le
  rw [← heq, List.length_cons] at hl
  omega

/-- In a list that begins behind a token no statement fails on it. -/
theorem Begins.not_failsOn {closes : Kind → Bool} (h : Begins expr closes s u)
    (hs : s.cursor.On rest) (d : Diagnostic) : ¬ FailsOn expr (t :: rest) u d := by
  rintro ⟨v, hv, hon⟩
  have hahead := (statement expr).attempt.ahead u
  rw [run_attempt, hv] at hahead
  exact not_on_of_ahead hs (h.ahead.trans hahead) hon

/-- A statement ends on one list of tokens only. -/
theorem not_failsOn_of_on {ts : List Token} (h : ((statement expr).run s).2.cursor.On us)
    (hne : us ≠ ts) (d : Diagnostic) : ¬ FailsOn expr ts s d := by
  rintro ⟨v, hv, hon⟩
  rw [hv] at h
  exact hne (h.unique hon)

/-- A list of statements before a brace ends on the brace, unless a statement fails on it; that only
happens where the last token before the brace awaits an operand.  The induction is on how many
tokens are left before the brace. -/
theorem StaysExpr.statements (hrb : rb.kind = .rbrace) (h : StaysExpr limit rb rest expr)
    (heof : closesBlock .eof) (hb : BraceFree us) (hs : s.cursor.On (us ++ rb :: rest)) :
    (((statements expr closesBlock heof).run s).2.cursor.On (rb :: rest) ↔
      ∀ u, Begins expr closesBlock s u → ∀ d, ¬ FailsOn expr (rb :: rest) u d) ∧
    ∀ u, Begins expr closesBlock s u → ∀ d, FailsOn expr (rb :: rest) u d →
      d.Misses limit rb ∧ ∃ vs t, us = vs ++ [t] ∧ t.kind.awaitsOperand := by
  induction hl : us.length using Nat.strongRecOn generalizing s us with
  | ind l ih =>
    subst hl
    cases us with
    | nil =>
      have hc : closesBlock s.cursor.current.kind := by
        rw [hs.kind_current, List.nil_append, headKind_cons, hrb]
        rfl
      rw [run_statements, if_pos hc]
      refine ⟨⟨fun _ u hu => ?_, fun _ => hs⟩, fun u hu => ?_⟩
      · exact absurd hu (not_begins_of_closes hc)
      · exact absurd hu (not_begins_of_closes hc)
    | cons t us =>
      have hc : ¬ closesBlock s.cursor.current.kind := by
        have h1 := (hb t (List.mem_cons_self ..)).2
        have h2 : t.kind ≠ .eof := hs.kind_ne_eof
        rw [hs.kind_current, List.cons_append, headKind_cons]
        simp [closesBlock, h1, h2]
      obtain ⟨vs, hv, hr, hm⟩ := h.statement hrb hb hs
      have hnext : ((recorded (Grammar.statement expr)).run s).2.next.cursor.On
          (vs ++ rb :: rest).tail := by
        rw [Session.cursor_next, cursor_recorded]
        exact hr.advance_tail
      rw [run_statements, if_neg hc, forall_begins_iff hc, forall_begins_iff hc]
      simp only
      cases vs with
      | nil =>
        -- the statement failed on the brace, and the list goes on behind it
        obtain ⟨d, hd, hmiss, hdue⟩ := hm rfl
        refine ⟨⟨fun hend => ?_, fun hnone => ?_⟩, fun d' hf => ?_, fun u hu d' hf => ?_⟩
        · exact absurd hend
            (not_on_of_ahead hnext ((Grammar.statements expr closesBlock heof).ahead _))
        · exact absurd ⟨_, Prod.ext hd rfl, hr⟩ (hnone.1 d)
        · obtain ⟨v, hv', -⟩ := hf
          rw [hv'] at hd
          cases hd
          exact ⟨hmiss, hdue.resolve_left (List.cons_ne_nil t us)⟩
        · exact absurd hf (hu.not_failsOn hnext d')
      | cons v vs =>
        have hne : v :: vs ++ rb :: rest ≠ rb :: rest := by
          intro heq
          have := congrArg List.length heq
          simp only [List.length_append, List.length_cons] at this
          omega
        have hno := not_failsOn_of_on hr hne
        have hvs : vs <:+ t :: us := (List.suffix_cons v vs).trans hv
        have hlt : vs.length < (t :: us).length := by
          have := hv.length_le
          simp only [List.length_cons] at this ⊢
          omega
        obtain ⟨hiff, hdue⟩ := ih _ hlt (hb.of_suffix hvs) hnext rfl
        refine ⟨hiff.trans (and_iff_right hno).symm, fun d hf => absurd hf (hno d), ?_⟩
        intro u hu d hf
        obtain ⟨hmiss, ws, x, rfl, hx⟩ := hdue u hu d hf
        obtain ⟨ys, hys⟩ := hvs
        exact ⟨hmiss, ys ++ ws, x, by rw [← hys, List.append_assoc], hx⟩

end Lists

/-! ### Blocks -/

/-- A block whose first brace behind its own one closes it leaves the cursor on that brace exactly
if no statement that begins in the block fails on the brace.  Such a failure says that there is no
operand at the brace, or that too many levels are open there, and the token before the brace awaits
an operand. -/
theorem block_brace_iff (s : Session) (lb rb : Token) (us rest : List Token)
    (hs : s.cursor.On (lb :: us ++ rb :: rest)) (hrb : rb.kind = .rbrace) (hb : BraceFree us) :
    (((block expression).run s).2.cursor.On (rb :: rest) ↔
      ∀ u, Begins expression closesBlock s.next u → ∀ d, ¬ FailsOn expression (rb :: rest) u d) ∧
    ∀ u, Begins expression closesBlock s.next u → ∀ d, FailsOn expression (rb :: rest) u d →
      d.Misses maxLevels rb ∧ ∃ vs t, us = vs ++ [t] ∧ t.kind.awaitsOperand :=
  (staysExpr_expressionWithin hrb).statements hrb rfl hb (s := s.next) hs.advance

/-- A token of a source without a name. -/
def tokenAt (kind : Kind) (literal : String) (start : Nat) : Token :=
  ⟨kind, literal, ⟨start, start + literal.length, defaultFile⟩⟩

/-- `) `, from which no statement begins, is skipped, and the block ends on its brace. -/
theorem block_brace_rparen :
    (Session.ofSource "\x7b ) \x7d y" none).cursor.On
      [tokenAt .lbrace "\x7b" 0, tokenAt .rparen ")" 2, tokenAt .rbrace "\x7d" 4,
        tokenAt .ident "y" 6] ∧
    BraceFree [tokenAt .rparen ")" 2] ∧
    ((block expression).run (Session.ofSource "\x7b ) \x7d y" none)).2.cursor.On
      [tokenAt .rbrace "\x7d" 4, tokenAt .ident "y" 6] := by
  have hon := Cursor.on_ofScanner (Scanner.ofSource "\x7b ) \x7d y" none)
  have htok : (Scanner.ofSource "\x7b ) \x7d y" none).upcoming =
      [tokenAt .lbrace "\x7b" 0, tokenAt .rparen ")" 2, tokenAt .rbrace "\x7d" 4,
        tokenAt .ident "y" 6] := by decide +kernel
  rw [htok] at hon
  have hb : BraceFree [tokenAt .rparen ")" 2] := by
    intro t ht
    rw [List.mem_singleton.1 ht]
    exact ⟨by decide, by decide⟩
  refine ⟨hon, hb, ?_⟩
  have h := block_brace_iff (Session.ofSource "\x7b ) \x7d y" none) _ _ [_] _ hon rfl hb
  refine h.1.2 fun u hu d hf => ?_
  obtain ⟨-, vs, t, hus, ht⟩ := h.2 u hu d hf
  cases vs with
  | nil =>
    cases hus
    exact absurd ht (by decide)
  | cons v vs => simp at hus

/-- Where the value of a `return` is missing, the block loses its brace and ends behind what comes
next. -/
theorem block_brace_return :
    (Session.ofSource "\x7b return \x7d y" none).cursor.On
      [tokenAt .lbrace "\x7b" 0, tokenAt .returnWord "return" 2, tokenAt .rbrace "\x7d" 9,
        tokenAt .ident "y" 11] ∧
    BraceFree [tokenAt .returnWord "return" 2] ∧
    ¬ ((block expression).run (Session.ofSource "\x7b return \x7d y" none)).2.cursor.On
      [tokenAt .rbrace "\x7d" 9, tokenAt .ident "y" 11] := by
  have hon := Cursor.on_ofScanner (Scanner.ofSource "\x7b return \x7d y" none)
  have htok : (Scanner.ofSource "\x7b return \x7d y" none).upcoming =
      [tokenAt .lbrace "\x7b" 0, tokenAt .returnWord "return" 2, tokenAt .rbrace "\x7d" 9,
        tokenAt .ident "y" 11] := by decide +kernel
  rw [htok] at hon
  refine ⟨hon, ?_, fun h => ?_⟩
  · intro t ht
    rw [List.mem_singleton.1 ht]
    exact ⟨by decide, by decide⟩
  · have hend : ((block expression).run
        (Session.ofSource "\x7b return \x7d y" none)).2.cursor.current.kind = .eof := by
      decide +kernel
    rw [h.current_eq] at hend
    exact absurd hend (by decide)

end Grammar

end ExprLang
