import ExprLang.Proofs.Recovery.Trace

/-!
# How deep a tree nests

`Expr.nest` counts the levels that a tree takes without the parentheses of its text: one for itself,
and one more for every operand on the right side and for everything inside an `if`; a left side is
on the level of its operation.  What an expression reads on `n` levels does not nest deeper than `n`
(`Spans.nest_le`), since a left side is read on as many levels as the whole operation.  So the trees
that are returned fit the bound on open levels, and no path in them goes 128 steps inwards
(`nest_le_budget`).
-/

namespace ExprLang

/-! ### Nesting -/

mutual

/-- How many levels an expression takes. -/
def Expr.nest : Expr → Nat
  | .ident _ | .number _ _ | .boolean _ _ => 1
  | .unary _ _ r => 1 + r.nest
  | .binary _ l _ r => max l.nest (1 + r.nest)
  | .conditional _ q b none => 1 + max q.nest b.nest
  | .conditional _ q b (some a) => 1 + max q.nest (max b.nest a.nest)

/-- How many levels the expression of a statement takes; a block has none of its own. -/
def Stmt.nest : Stmt → Nat
  | .binding _ _ v | .result _ v | .expression _ v => v.nest
  | .block _ => 0

def Block.nest : Block → Nat
  | .mk _ ss => Stmt.nestAll ss

def Stmt.nestAll : List Stmt → Nat
  | [] => 0
  | s :: ss => max s.nest (Stmt.nestAll ss)

end

def Piece.nest : Piece → Nat
  | .expr e => e.nest
  | .stmt st => st.nest
  | .stmts ss => Stmt.nestAll ss
  | .block b => b.nest

theorem Stmt.nestAll_le_iff {ss : List Stmt} {n : Nat} :
    Stmt.nestAll ss ≤ n ↔ ∀ st ∈ ss, st.nest ≤ n := by
  induction ss with
  | nil => simp [Stmt.nestAll]
  | cons st ss ih => simp only [Stmt.nestAll, Nat.max_le, List.forall_mem_cons, ih]

theorem Block.nest_eq (b : Block) : b.nest = Stmt.nestAll b.body := by
  cases b with
  | mk t ss => rfl

theorem Expr.nest_pos (e : Expr) : 0 < e.nest := by
  cases e with
  | ident | number | boolean => exact Nat.one_pos
  | unary | binary => simp only [Expr.nest]; omega
  | conditional t q b a => cases a <;> simp only [Expr.nest] <;> omega

/-! ### What is read on some levels -/

/-- A tree does not take more levels than it was read on. -/
theorem Spans.nest_le {c : Cursor} {n i j : Nat} {p : Piece} (h : Spans c n p i j) :
    p.nest ≤ n := by
  induction h with
  | ident | number | boolean => exact Nat.succ_le_succ (Nat.zero_le _)
  | unary _ _ ih =>
    simp only [Piece.nest, Expr.nest] at ih ⊢
    omega
  | grouped _ _ _ ih => exact Nat.le_succ_of_le ih
  | conditional _ _ _ _ _ ihq ihb =>
    simp only [Piece.nest, Expr.nest] at ihq ihb ⊢
    omega
  | conditionalElse _ _ _ _ _ _ _ ihq ihb iha =>
    simp only [Piece.nest, Expr.nest] at ihq ihb iha ⊢
    omega
  | binary _ _ _ ihl ihr =>
    -- the left side was read on all levels of the operation, the right side on one fewer
    simp only [Piece.nest, Expr.nest] at ihl ihr ⊢
    omega
  | binding _ _ _ _ _ ih | result _ _ _ ih | expression _ _ ih => exact ih
  | nil => exact Nat.zero_le _
  | cons _ _ ihst ihss => exact Nat.max_le.2 ⟨ihst, ihss⟩
  | skip _ _ ih => exact ih
  | block _ _ _ ih => exact ih

/-- An expression that is read takes no more levels than may still be opened, whatever was reported
inside it. -/
theorem nest_le_of_run {limit : Nat} {power : Power} {s t : Session} {e : Expr}
    (h : (expressionWithin limit power).run s = (.ok e, t)) : s.depth + e.nest ≤ limit := by
  have htraces : Traces limit s.cursor 0 s.errors.toList (limit - s.depth)
      (expressionOn limit (limit - s.depth)) := traces_expressionOn _
  have htraced := htraces power s 0 (.refl rfl)
  rw [← run_expressionWithin, h] at htraced
  cases htraced with
  | ok _ _ _ hspans =>
    have hle : e.nest ≤ limit - s.depth := hspans.nest_le
    have hpos := e.nest_pos
    omega

/-! ### Paths into a tree -/

def Stmt.value? : Stmt → Option Expr
  | .binding _ _ v | .result _ v | .expression _ v => some v
  | .block _ => none

/-- The statement with the expression `v` stands directly in the block. -/
def Block.Holds (b : Block) (v : Expr) : Prop := ∃ st ∈ b.body, st.value? = some v

/-- So many steps, apart from those to a left side, lead from the first expression inwards to the
second one. -/
inductive Expr.Inside : Nat → Expr → Expr → Prop
  | here {e : Expr} : Inside 0 e e
  | operand {k : Nat} {t : Token} {op : String} {r e : Expr} (h : Inside k r e) :
      Inside (k + 1) (.unary t op r) e
  | left {k : Nat} {t : Token} {op : String} {l r e : Expr} (h : Inside k l e) :
      Inside k (.binary t l op r) e
  | right {k : Nat} {t : Token} {op : String} {l r e : Expr} (h : Inside k r e) :
      Inside (k + 1) (.binary t l op r) e
  | condition {k : Nat} {t : Token} {q e : Expr} {b : Block} {a : Option Block}
      (h : Inside k q e) : Inside (k + 1) (.conditional t q b a) e
  | consequence {k : Nat} {t : Token} {q v e : Expr} {b : Block} {a : Option Block}
      (hv : b.Holds v) (h : Inside k v e) : Inside (k + 1) (.conditional t q b a) e
  | alternative {k : Nat} {t : Token} {q v e : Expr} {b a : Block} (hv : a.Holds v)
      (h : Inside k v e) : Inside (k + 1) (.conditional t q b (some a)) e

theorem Stmt.nest_eq_of_value? {st : Stmt} {v : Expr} (h : st.value? = some v) :
    st.nest = v.nest := by
  cases st with
  | block => exact absurd h nofun
  | binding | result | expression =>
    cases h
    rfl

theorem Block.Holds.nest_le {b : Block} {v : Expr} (h : b.Holds v) : v.nest ≤ b.nest := by
  obtain ⟨st, hst, hv⟩ := h
  rw [← Stmt.nest_eq_of_value? hv, b.nest_eq]
  exact Stmt.nestAll_le_iff.1 (Nat.le_refl _) st hst

/-- Whatever is inside takes as many levels fewer as steps lead there. -/
theorem Expr.Inside.nest_le {k : Nat} {e e' : Expr} (h : e.Inside k e') :
    k + e'.nest ≤ e.nest := by
  induction h with
  | here => exact Nat.le_of_eq (Nat.zero_add _)
  | operand _ ih | left _ ih | right _ ih =>
    simp only [Expr.nest]
    omega
  | @condition k t q e b a _ ih =>
    cases a <;> simp only [Expr.nest] <;> omega
  | @consequence k t q v e b a hv _ ih =>
    have hb := hv.nest_le
    cases a <;> simp only [Expr.nest] <;> omega
  | alternative hv _ ih =>
    have ha := hv.nest_le
    simp only [Expr.nest]
    omega

/-! ### The bound -/

/-- The expression of a statement of a program takes no more levels than there are. -/
theorem nest_le_of_parse {source : String} {file : Option String} {st : Stmt}
    (hst : st ∈ (parse source file).1.statements) : st.nest ≤ maxLevels := by
  obtain ⟨j, hspans⟩ := spans_parse source file
  exact Stmt.nestAll_le_iff.1 hspans.nest_le st hst

/-- **Trees fit the bound.**  What an expression reads takes no more levels than were left to be
opened.  In a program no path from the expression of a statement inwards has more than 127 steps
apart from those to a left side. -/
theorem nest_le_budget :
    (∀ s t power e, (expression power).run s = (.ok e, t) → s.depth + e.nest ≤ 128) ∧
      ∀ source file, ∀ st ∈ (parse source file).1.statements, ∀ v, st.value? = some v →
        ∀ k e, v.Inside k e → k ≤ 127 := by
  constructor
  · intro s t power e h
    exact nest_le_of_run h
  · intro source file st hst v hv k e h
    have hinside := h.nest_le
    have hpos := e.nest_pos
    have hmax : v.nest ≤ 128 := Stmt.nest_eq_of_value? hv ▸ nest_le_of_parse hst
    omega

/-- Whether the statements are one `if`, in whose block an operation has an operator before its
right side. -/
def Stmt.areConditional : List Stmt → Bool
  | [.expression _ (.conditional _ _ (.mk _ [.expression _ (.binary _ _ _ (.unary ..))]) none)] =>
    true
  | _ => false

/-- Where 126 levels are open, the operand in the block is one level too deep, and the `if` that is
left without it fits; and three steps lead to the operand in another block. -/
theorem nest_le_budget_conditional :
    (∃ e t, (expression .lowest).run
        { Session.ofSource "if (a) \x7b -b \x7d" none with depth := 126 } = (.ok e, t) ∧
      t.errors = #[⟨.tooDeep 128, ⟨10, "shell"⟩⟩] ∧ 126 + e.nest ≤ 128) ∧
    ∃ st ∈ (parse "if (a) \x7b return; b + -c \x7d" none).1.statements, ∃ v e,
      st.value? = some v ∧ v.Inside 3 e ∧ 3 ≤ 127 := by
  constructor
  · have hok : ((expression .lowest).run
        { Session.ofSource "if (a) \x7b -b \x7d" none with depth := 126 }).1.isOk := by
      decide +kernel
    have herrors : ((expression .lowest).run
        { Session.ofSource "if (a) \x7b -b \x7d" none with depth := 126 }).2.errors =
          #[⟨.tooDeep 128, ⟨10, "shell"⟩⟩] := by
      decide +kernel
    have hbudget := nest_le_budget.1
      { Session.ofSource "if (a) \x7b -b \x7d" none with depth := 126 }
    rcases hr : (expression .lowest).run
      { Session.ofSource "if (a) \x7b -b \x7d" none with depth := 126 } with ⟨d | e, t⟩
    · rw [hr] at hok
      exact absurd hok nofun
    · rw [hr] at herrors
      exact ⟨e, t, rfl, herrors, hbudget t _ e hr⟩
  · have hshape : Stmt.areConditional
        (parse "if (a) \x7b return; b + -c \x7d" none).1.statements := by
      decide +kernel
    have hbudget := nest_le_budget.2 "if (a) \x7b return; b + -c \x7d" none
    unfold Stmt.areConditional at hshape
    split at hshape
    · rename_i t w q u z o l op f g r hstatements
      rw [hstatements] at hbudget ⊢
      have hinside : Expr.Inside 3
          (.conditional w q (.mk u [.expression z (.binary o l op (.unary f g r))]) none) r :=
        .consequence ⟨_, List.mem_singleton_self _, rfl⟩ (.right (.operand .here))
      exact ⟨_, List.mem_singleton_self _, _, _, rfl, hinside,
        hbudget _ (List.mem_singleton_self _) _ rfl _ _ hinside⟩
    · exact absurd hshape Bool.false_ne_true

end ExprLang
