import ExprLang.Proofs.Parsing.Depth

/-!
# Operators in the right order

Behind its operand an expression reads operations and folds each of them onto all that stands before
it (`Fold.onto`).  `Folds expr s fs t` says that the operations `fs` are read between the sessions
`s` and `t`.

The loop stops in front of a token that does not exceed its power; `stop?` says for which reason.
So does the loop of every right side, whose power is that of the operator before it.  The next
operator is thus no tighter than that one, and the operators of one loop never tighten
(`Folds.pairwise`).  An expression is read exactly if its operand and such operations are
(`run_expression_eq_ok_iff`).
-/

namespace ExprLang

open Grammar Parse Walk

namespace Grammar

variable {expr : Power → Parse Expr} {s t : Session}

/-! ### Parts that do not fail -/

theorem run_binary_eq_ok_iff {left e : Expr} :
    (binary expr left).run s = (.ok e, t) ↔
      ∃ r, (expr s.cursor.current.kind.power).run s.next = (.ok r, t) ∧
        e = .binary s.cursor.current left s.cursor.current.literal r := by
  rw [binary, run_current_bind, run_advance_bind, run_bind_eq_ok_iff]
  constructor
  · rintro ⟨r, u, hr, he⟩
    cases he
    exact ⟨r, hr, rfl⟩
  · rintro ⟨r, hr, rfl⟩
    exact ⟨r, t, hr, rfl⟩

theorem run_operand_eq_ok_iff {e : Expr} :
    (operand expr).run s = (.ok e, t) ↔
      ∃ x, operand? expr s.cursor.current.kind = some x ∧ x.run s = (.ok e, t) := by
  rw [operand, run_current_bind]
  cases operand? expr s.cursor.current.kind with
  | none => simp
  | some x => simp

/-! ### Where the loop stops -/

/-- Why no operation is read on: a semicolon stands next, or a token that does not exceed the power,
or one that does but is no operator. -/
inductive Stop
  | semicolon | loose | noOperator

/-- The tests on the next token that are made before an operation is read, one after the other. -/
def stop? (power : Power) (next : Kind) : Option Stop :=
  if next = .semicolon then some .semicolon
  else if power < next.power then
    if next.operator?.isSome then none else some .noOperator
  else some .loose

/-- What exceeds a power is no semicolon, and it is an operator. -/
theorem stop?_of_lt {power : Power} {next : Kind} (h : power < next.power) :
    stop? power next = none := by
  have hsemicolon : next ≠ .semicolon := by
    rintro rfl
    exact power.not_lt_lowest h
  rw [stop?, if_neg hsemicolon, if_pos h, if_pos (Kind.isSome_operator?_of_lt_power h)]

theorem stop?_of_le {power : Power} {next : Kind} (h : next.power ≤ power) :
    stop? power next = some .semicolon ∨ stop? power next = some .loose := by
  by_cases hsemicolon : next = .semicolon
  · exact .inl (if_pos hsemicolon)
  · right
    rw [stop?, if_neg hsemicolon, if_neg (Power.not_lt.2 h)]

/-- The loop makes one comparison of powers, and goes on where all tests do. -/
theorem nextOperation?_ok (expr : Power → Parse Expr) (power : Power) (left : Expr) (s : Session) :
    nextOperation? expr power (.ok left) s =
      match stop? power s.cursor.peek.kind with
      | none => some do
        advance
        (binary expr left).attempt
      | some _ => none := by
  by_cases h : power < s.cursor.peek.kind.power
  · rw [stop?_of_lt h]
    exact if_pos h
  · have hnone : nextOperation? expr power (.ok left) s = none := if_neg h
    rcases stop?_of_le (Power.not_lt.1 h) with hs | hs <;> rw [hs, hnone]

/-! ### Folds -/

/-- An operation without its left side. -/
structure Fold where
  operator : Token
  right : Expr

def Fold.power (f : Fold) : Power := f.operator.kind.power

def Fold.onto (left : Expr) (f : Fold) : Expr :=
  .binary f.operator left f.operator.literal f.right

/-- The operations stand between two sessions, each behind the one before.  The operator is the
token behind the current one, and what `expr` reads with the operator's own power, from the token
behind it on, is the right side. -/
inductive Folds (expr : Power → Parse Expr) : Session → List Fold → Session → Prop
  | nil {s : Session} : Folds expr s [] s
  | cons {s t u : Session} {r : Expr} {fs : List Fold}
      (hr : (expr s.cursor.peek.kind.power).run s.next.next = (.ok r, t)) (h : Folds expr t fs u) :
      Folds expr s (⟨s.cursor.peek, r⟩ :: fs) u

/-- The operations that the loop has read when it does not fail.  The induction is on what is left
of the source. -/
theorem exists_folds_of_run {power : Power} {left e : Expr}
    (h : (operations expr power left).run s = (.ok e, t)) :
    ∃ fs, Folds expr s fs t ∧ e = fs.foldl Fold.onto left ∧ (∀ f ∈ fs, power < f.power) ∧
      t.cursor.peek.kind.power ≤ power := by
  induction hn : s.cursor.size using Nat.strongRecOn generalizing s left with
  | ind size ih =>
    subst hn
    rw [run_operations] at h
    by_cases hp : power < s.cursor.peek.kind.power
    · rw [if_pos hp, run_bind_eq_ok_iff] at h
      obtain ⟨l, u, hl, h⟩ := h
      obtain ⟨r, hr, rfl⟩ := run_binary_eq_ok_iff.1 hl
      -- the operator is used up, and its right side gives nothing back
      have hlt : u.cursor.size < s.cursor.size := by
        have hright := (expr s.next.cursor.current.kind.power).attempt.ahead s.next.next
        rw [run_attempt, hr] at hright
        have hbehind := Nat.le_trans hright.size_le (Simulation.size_next_le s.next)
        exact Nat.lt_of_le_of_lt hbehind
          (Simulation.size_next_lt_of_peek (Kind.ne_eof_of_lt_power hp))
      obtain ⟨fs, hfs, rfl, hall, hend⟩ := ih _ hlt h rfl
      exact ⟨_ :: fs, .cons hr hfs, rfl, List.forall_mem_cons.2 ⟨hp, hall⟩, hend⟩
    · rw [if_neg hp] at h
      cases h
      exact ⟨[], .nil, rfl, nofun, Power.not_lt.1 hp⟩

/-- Conversely, the loop reads operations that exceed its power up to a token that does not. -/
theorem Folds.run_operations {power : Power} {fs : List Fold} (h : Folds expr s fs t)
    (hall : ∀ f ∈ fs, power < f.power) (hend : t.cursor.peek.kind.power ≤ power) (left : Expr) :
    (operations expr power left).run s = (.ok (fs.foldl Fold.onto left), t) := by
  induction h generalizing left with
  | nil => rw [Grammar.run_operations, if_neg (Power.not_lt.2 hend), List.foldl_nil]
  | @cons s t u r fs hr _ ih =>
    obtain ⟨hoperator, hrest⟩ := List.forall_mem_cons.1 hall
    have hp : power < s.cursor.peek.kind.power := hoperator
    rw [Grammar.run_operations, if_pos hp, run_bind_eq_ok_iff]
    exact ⟨_, t, run_binary_eq_ok_iff.2 ⟨r, hr, rfl⟩, ih hrest hend _⟩

section Order

variable (hexpr : ∀ p s r t, (expr p).run s = (.ok r, t) → t.cursor.peek.kind.power ≤ p)

include hexpr

/-- None of the operators is tighter than the token in front of which the first one is read. -/
theorem Folds.power_le {fs : List Fold} (h : Folds expr s fs t) :
    ∀ f ∈ fs, f.power ≤ s.cursor.peek.kind.power := by
  induction h with
  | nil => nofun
  | cons hr _ ih =>
    refine List.forall_mem_cons.2 ⟨Power.le_refl _, fun f hf => ?_⟩
    exact Power.le_trans (ih f hf) (hexpr _ _ _ _ hr)

/-- Where every right side stops in front of a token that is at most as tight as its operator, no
operator is tighter than one before it. -/
theorem Folds.pairwise {fs : List Fold} (h : Folds expr s fs t) :
    fs.Pairwise fun f g => g.power ≤ f.power := by
  induction h with
  | nil => exact .nil
  | cons hr h ih =>
    -- the right side stops in front of the next operator
    refine List.pairwise_cons.2 ⟨fun g hg => ?_, ih⟩
    exact Power.le_trans (h.power_le hexpr g hg) (hexpr _ _ _ _ hr)

end Order

end Grammar

/-! ### Expressions -/

section Within

variable {limit : Nat} {power : Power} {e : Expr} {s t : Session}

/-- An expression that does not fail has opened a level, and read an operand and operations on
it. -/
theorem run_expressionWithin_eq_ok_iff :
    (expressionWithin limit power).run s = (.ok e, t) ↔
      s.depth < limit ∧ ∃ first u fs v,
        (operand (expressionWithin limit)).run s.deeper = (.ok first, u) ∧
        Folds (expressionWithin limit) u fs v ∧ e = fs.foldl Fold.onto first ∧
        (∀ f ∈ fs, power < f.power) ∧ v.cursor.peek.kind.power ≤ power ∧ t = v.shallower := by
  rw [run_expressionWithin_eq]
  by_cases hd : limit ≤ s.depth
  · rw [if_pos hd]
    exact iff_of_false nofun fun h => Nat.not_lt.2 hd h.1
  · rw [if_neg hd, run_nested_eq_ok_iff]
    simp only [expressionAbove, run_bind_eq_ok_iff]
    constructor
    · rintro ⟨v, ⟨first, u, hfirst, hv⟩, rfl⟩
      obtain ⟨fs, hfs, rfl, hall, hend⟩ := exists_folds_of_run hv
      exact ⟨Nat.not_le.1 hd, first, u, fs, v, hfirst, hfs, rfl, hall, hend, rfl⟩
    · rintro ⟨-, first, u, fs, v, hfirst, hfs, rfl, hall, hend, rfl⟩
      exact ⟨v, ⟨first, u, hfirst, hfs.run_operations hall hend first⟩, rfl⟩

/-- Behind an expression no token stands that exceeds its power. -/
theorem power_peek_le_of_run (h : (expressionWithin limit power).run s = (.ok e, t)) :
    t.cursor.peek.kind.power ≤ power := by
  obtain ⟨-, -, -, -, v, -, -, -, -, hend, rfl⟩ := run_expressionWithin_eq_ok_iff.1 h
  exact hend

end Within

/-- An operator that is as tight as the power of the expression belongs to it no more. -/
example : ((expression .sum).run (.ofSource "a * b / c - d" none)).2.cursor.peek.kind = .minus := by
  decide +kernel

/-- **Operators are folded in the right order.**  In whatever state a session is, also with reports
in it: an expression above a power is read exactly if a level is left to be opened, the operand that
the current token starts is read on it, and then operations are, each of them folded onto what
stands before it.  The right side of each is an expression above the operator's own power, from the
token behind the operator on.  All operators exceed the power, none is tighter than one before it,
and the token that follows does not exceed the power.  So the loop stops at a semicolon or at a
token that is too loose, and never at one that binds but is no operator. -/
theorem run_expression_eq_ok_iff (power : Power) (s : Session) (e : Expr) (t : Session) :
    (expression power).run s = (.ok e, t) ↔
      s.depth < maxLevels ∧ ∃ x first u fs v,
        operand? expression s.cursor.current.kind = some x ∧ x.run s.deeper = (.ok first, u) ∧
        Folds expression u fs v ∧ e = fs.foldl Fold.onto first ∧ t = v.shallower ∧
        (∀ f ∈ fs, power < f.power) ∧ fs.Pairwise (fun f g => g.power ≤ f.power) ∧
        t.cursor.peek.kind.power ≤ power ∧
        (stop? power t.cursor.peek.kind = some .semicolon ∨
          stop? power t.cursor.peek.kind = some .loose) := by
  have hwithin : expression = expressionWithin maxLevels := rfl
  rw [hwithin, run_expressionWithin_eq_ok_iff]
  refine and_congr_right fun _ => ?_
  constructor
  · rintro ⟨first, u, fs, v, hfirst, hfs, rfl, hall, hend, rfl⟩
    obtain ⟨x, hx, hfirst⟩ := run_operand_eq_ok_iff.1 hfirst
    have hpairwise := hfs.pairwise fun _ _ _ _ h => power_peek_le_of_run h
    exact ⟨x, first, u, fs, v, hx, hfirst, hfs, rfl, rfl, hall, hpairwise, hend, stop?_of_le hend⟩
  · rintro ⟨x, first, u, fs, v, hx, hfirst, hfs, rfl, rfl, hall, -, hend, -⟩
    have hoperand := (run_operand_eq_ok_iff (s := s.deeper)).2 ⟨x, hx, hfirst⟩
    exact ⟨first, u, fs, v, hoperand, hfs, rfl, hall, hend, rfl⟩

end ExprLang
