import ExprLang.Proofs.Recovery.Partition

/-!
# Trees keep the order of the source

The tokens of a tree, listed from left to right, are tokens of the source in their order, and none
is listed twice; and where an expression stands as a statement, the first token of the statement is
not behind the tokens of the expression, and behind all tokens to the left of it
(`parse_sourceOrder`).  This holds also of a program that lacks statements, since it is a fact about
how a tree spans tokens (`Spans.places`).
-/

namespace ExprLang

/-! ### What is listed of a tree -/

/-- A token of a node, or the beginning of an expression that stands as a statement. -/
inductive Mark
  | token (t : Token)
  | statement (first : Token) (value : Expr)

def Mark.token? : Mark → Option Token
  | token t => some t
  | statement .. => none

mutual

/-- An expression from left to right: a unary operator stands before its operand, a binary one
between its operands. -/
def Expr.marks : Expr → List Mark
  | .ident x => [.token x.token]
  | .number t _ | .boolean t _ => [.token t]
  | .unary t _ r => .token t :: r.marks
  | .binary t l _ r => l.marks ++ .token t :: r.marks
  | .conditional t q b none => .token t :: (q.marks ++ b.marks)
  | .conditional t q b (some a) => .token t :: (q.marks ++ (b.marks ++ a.marks))

/-- A statement from left to right.  The first token of an expression as a statement belongs to one
of its nodes, or is a parenthesis, and is not listed once more. -/
def Stmt.marks : Stmt → List Mark
  | .binding t x v => .token t :: .token x.token :: v.marks
  | .result t v => .token t :: v.marks
  | .expression t v => .statement t v :: v.marks
  | .block b => b.marks

/-- A block from left to right, from its opening brace on. -/
def Block.marks : Block → List Mark
  | .mk t ss => .token t :: Stmt.marksAll ss

def Stmt.marksAll : List Stmt → List Mark
  | [] => []
  | s :: ss => s.marks ++ Stmt.marksAll ss

end

def Program.marks (p : Program) : List Mark := Stmt.marksAll p.statements

def Piece.marks : Piece → List Mark
  | .expr e => e.marks
  | .stmt st => st.marks
  | .stmts ss => Stmt.marksAll ss
  | .block b => b.marks

def listed (ms : List Mark) : List Token := ms.filterMap Mark.token?

@[simp] theorem listed_nil : listed [] = [] := rfl

@[simp] theorem listed_token (t : Token) (ms : List Mark) :
    listed (.token t :: ms) = t :: listed ms := rfl

@[simp] theorem listed_statement (t : Token) (v : Expr) (ms : List Mark) :
    listed (.statement t v :: ms) = listed ms := rfl

theorem Expr.exists_marks (e : Expr) : ∃ t ms, e.marks = .token t :: ms := by
  match e with
  | .ident _ | .number _ _ | .boolean _ _ | .unary _ _ _ => exact ⟨_, _, rfl⟩
  | .conditional _ _ _ none | .conditional _ _ _ (some _) => exact ⟨_, _, rfl⟩
  | .binary t l _ r =>
    obtain ⟨u, ms, h⟩ := l.exists_marks
    exact ⟨u, ms ++ .token t :: r.marks, by rw [Expr.marks, h, List.cons_append]⟩

/-! ### Marks in a row of tokens -/

variable {c : Cursor} {i i' j j' k n : Nat} {ms ns : List Mark}

/-- The marks are tokens from the `i`-th one on and before the `j`-th one, each token of a node
behind the one before it.  A statement begins behind the tokens before it, and not behind its
expression. -/
inductive Cursor.Places (c : Cursor) : Nat → Nat → List Mark → Prop
  | nil {i j : Nat} (h : i ≤ j) : Places c i j []
  | token {i j k : Nat} {ms : List Mark} (hi : i ≤ k) (hk : (c.token k).kind ≠ .eof)
      (h : Places c (k + 1) j ms) : Places c i j (.token (c.token k) :: ms)
  | statement {i j k l : Nat} {v : Expr} {ms : List Mark} (hi : i ≤ k) (hl : k ≤ l)
      (hv : (listed v.marks).head? = some (c.token l)) (h : Places c k j ms) :
      Places c i j (.statement (c.token k) v :: ms)

namespace Cursor.Places

theorem mono (h : c.Places i j ms) (hi : i' ≤ i) (hj : j ≤ j') : c.Places i' j' ms := by
  induction h generalizing i' with
  | nil h => exact .nil (by omega)
  | token hik hk _ ih => exact .token (by omega) hk (ih (Nat.le_refl _) hj)
  | statement hik hl hv _ ih => exact .statement (by omega) hl hv (ih (Nat.le_refl _) hj)

theorem append (h : c.Places i j ms) (h' : c.Places j k ns) : c.Places i k (ms ++ ns) := by
  induction h with
  | nil h => exact h'.mono h (Nat.le_refl k)
  | token hi hk _ ih => exact .token hi hk (ih h')
  | statement hi hl hv _ ih => exact .statement hi hl hv (ih h')

/-- The tokens are listed in their order. -/
theorem sublist (h : c.Places i j ms) {ts : List Token} (hc : c.On ts) :
    (listed ms).Sublist (ts.drop i) := by
  induction h with
  | nil => exact List.nil_sublist _
  | @token i j k ms hi hk _ ih =>
    have hlt := hc.lt_length hk
    have hget : ts[k] = c.token k := Option.some.inj
      ((List.getElem?_eq_getElem hlt).symm.trans (hc.getElem?_eq hlt))
    have hdrop : (c.token k :: listed ms).Sublist (ts.drop k) := by
      rw [List.drop_eq_getElem_cons hlt, hget]
      exact ih.cons_cons _
    exact hdrop.trans (List.drop_sublist_drop_left ts hi)
  | statement hi _ _ _ ih => exact ih.trans (List.drop_sublist_drop_left ts hi)

/-- Where a statement begins among marks. -/
theorem exists_of_statement {t : Token} {v : Expr} (h : c.Places i j (ms ++ .statement t v :: ns)) :
    ∃ k l, i ≤ k ∧ t = c.token k ∧ k ≤ l ∧ (listed v.marks).head? = some (c.token l) ∧
      ∀ u ∈ listed ms, ∃ m < k, u = c.token m ∧ u.kind ≠ .eof := by
  induction ms generalizing i with
  | nil =>
    cases h with
    | statement hi hl hv _ => exact ⟨_, _, hi, rfl, hl, hv, fun u hu => absurd hu List.not_mem_nil⟩
  | cons m ms ih =>
    cases h with
    | token hi hk h =>
      obtain ⟨k, l, hik, ht, hl, hv, hms⟩ := ih h
      refine ⟨k, l, by omega, ht, hl, hv, List.forall_mem_cons.2 ⟨?_, hms⟩⟩
      exact ⟨_, hik, rfl, hk⟩
    | statement hi _ _ h =>
      obtain ⟨k, l, hik, ht, hl, hv, hms⟩ := ih h
      exact ⟨k, l, by omega, ht, hl, hv, hms⟩

end Cursor.Places

/-! ### Trees in a row of tokens -/

/-- The number of the first token behind what is read up to the token `j`. -/
def Piece.behind (j : Nat) : Piece → Nat
  | .stmts _ => j
  | _ => j + 1

/-- An expression lists a token first, which is not before those that it spans. -/
theorem Cursor.Places.exists_head? {e : Expr} (h : c.Places i j e.marks) :
    ∃ k ≥ i, (listed e.marks).head? = some (c.token k) := by
  obtain ⟨t, ms, hms⟩ := e.exists_marks
  rw [hms] at h ⊢
  cases h with
  | token hi => exact ⟨_, hi, rfl⟩

/-- What spans some tokens lists them in their order. -/
theorem Spans.places {p : Piece} (h : Spans c n p i j) : c.Places i (p.behind j) p.marks := by
  induction h with
  | ident hk | number hk =>
    exact .token (Nat.le_refl _) (by rw [hk]; nofun) (.nil (Nat.le_refl _))
  | boolean hk =>
    exact .token (Nat.le_refl _) (by rcases hk with hk | hk <;> rw [hk] <;> nofun)
      (.nil (Nat.le_refl _))
  | unary hk _ ih =>
    exact .token (Nat.le_refl _) (by rcases hk with hk | hk <;> rw [hk] <;> nofun) ih
  | grouped _ _ _ ih => exact ih.mono (Nat.le_succ _) (Nat.le_succ _)
  | conditional hw _ _ _ _ ihq ihb =>
    refine .token (Nat.le_refl _) (by rw [hw]; nofun) (.append ?_ ihb)
    exact ihq.mono (Nat.le_succ _) (Nat.le_succ _)
  | conditionalElse hw _ _ _ _ _ _ ihq ihb iha =>
    have hbranches := (ihb.mono (Nat.le_refl _) (Nat.le_succ _)).append iha
    refine .token (Nat.le_refl _) (by rw [hw]; nofun) (.append ?_ hbranches)
    exact ihq.mono (Nat.le_succ _) (Nat.le_succ _)
  | binary _ ho _ ihl ihr =>
    have hop : (c.token (_ + 1)).kind ≠ .eof := fun h => by rw [h] at ho; exact absurd ho nofun
    exact ihl.append (.token (Nat.le_refl _) hop ihr)
  | binding hw hx _ _ hj ih =>
    refine .token (Nat.le_refl _) (by rw [hw]; nofun) ?_
    refine .token (Nat.le_refl _) (by rw [hx]; nofun) ?_
    exact ih.mono (Nat.le_succ _) (Nat.succ_le_succ hj.le)
  | result hw _ hj ih =>
    refine .token (Nat.le_refl _) (by rw [hw]; nofun) ?_
    exact ih.mono (Nat.le_refl _) (Nat.succ_le_succ hj.le)
  | expression _ hj ih =>
    obtain ⟨l, hl, hhead⟩ := ih.exists_head?
    exact .statement (Nat.le_refl _) hl hhead (ih.mono (Nat.le_refl _) (Nat.succ_le_succ hj.le))
  | nil => exact .nil (Nat.le_refl _)
  | cons _ _ ihst ihss => exact ihst.append ihss
  | skip hk _ ih => exact ih.mono (by omega) (Nat.le_refl _)
  | block hl _ _ ih =>
    exact .token (Nat.le_refl _) (by rw [hl]; nofun) (ih.mono (Nat.le_refl _) (Nat.le_succ _))

/-! ### Whole sources -/

/-- A program is placed in the row of the tokens of its source. -/
theorem places_parse (source : String) (file : Option String) :
    ∃ j, (Session.ofSource source file).cursor.Places 0 j (parse source file).1.marks := by
  obtain ⟨j, hss⟩ := spans_parse source file
  exact ⟨j, hss.places⟩

/-- **Trees keep the order of the source.**  The tokens of a program, from left to right, are tokens
of its source in their order, each of which starts behind the one before it.  An expression as a
statement begins no later than its tokens, and behind all tokens to the left of it. -/
theorem parse_sourceOrder (source : String) (file : Option String)
    (h : source.utf8ByteSize ≤ maxOffset) :
    (listed (parse source file).1.marks).Sublist (tokenize source file) ∧
      (listed (parse source file).1.marks).Pairwise (fun t u => t.span.start < u.span.start) ∧
      ∀ before t v after, (parse source file).1.marks = before ++ .statement t v :: after →
        (∃ u, (listed v.marks).head? = some u ∧ t.span.start ≤ u.span.start) ∧
          ∀ u ∈ listed before, u.span.start < t.span.start := by
  obtain ⟨j, hplaces⟩ := places_parse source file
  have hsub : (listed (parse source file).1.marks).Sublist
      ((tokenize source file).filter (·.kind ≠ .eof)) :=
    hplaces.sublist (on_tokenize source file)
  have hstart : ∀ t ∈ listed (parse source file).1.marks, t.span.start < maxOffset := by
    intro t ht
    have ht := hsub.subset ht
    rw [tokenize, Scanner.filter_tokens] at ht
    exact Nat.lt_of_lt_of_le (start_lt_of_mem_upcoming ht) h
  have hsubTokens := hsub.trans List.filter_sublist
  refine ⟨hsubTokens, ?_, fun before t v after hms => ?_⟩
  · refine ((pairwise_start_tokenize source file).sublist hsubTokens).imp_of_mem ?_
    exact fun ht _ hlt => hlt (hstart _ ht)
  · rw [hms] at hplaces
    obtain ⟨k, l, -, rfl, hkl, hhead, hbefore⟩ := hplaces.exists_of_statement
    refine ⟨⟨_, hhead, ?_⟩, fun u hu => ?_⟩
    · rw [token_ofSource, token_ofSource]
      rcases Nat.eq_or_lt_of_le hkl with rfl | hlt
      · exact Nat.le_refl _
      · rcases start_tokenStream_lt_or file h hlt with hlt | ⟨hk, hl⟩
        · exact Nat.le_of_lt hlt
        · exact Nat.le_of_eq (hk.trans hl.symm)
    · obtain ⟨m, hmk, rfl, hm⟩ := hbefore u hu
      rw [token_ofSource] at hm ⊢
      have hmax := Nat.lt_of_lt_of_le (start_tokenStream_lt_utf8ByteSize hm) h
      rw [token_ofSource]
      exact start_tokenStream_lt hm hmax hmk

/-- The block lacks a statement, and the parentheses leave no node but begin a statement. -/
theorem parse_sourceOrder_partial :
    "if (a) \x7b let 1; (b) \x7d".utf8ByteSize ≤ maxOffset ∧
      (parse "if (a) \x7b let 1; (b) \x7d" none).2.toList =
        [⟨.unexpected .ident .int, ⟨13, "shell"⟩⟩] ∧
      (listed (parse "if (a) \x7b let 1; (b) \x7d" none).1.marks).map (·.literal) =
        ["if", "a", "\x7b", "1", "b"] ∧
      (listed (parse "if (a) \x7b let 1; (b) \x7d" none).1.marks).Sublist
        (tokenize "if (a) \x7b let 1; (b) \x7d" none) ∧
      (listed (parse "if (a) \x7b let 1; (b) \x7d" none).1.marks).Pairwise
        (fun t u => t.span.start < u.span.start) ∧
      ∃ before t v after,
        (parse "if (a) \x7b let 1; (b) \x7d" none).1.marks = before ++ .statement t v :: after ∧
          t.literal = "(" ∧ (∃ u, (listed v.marks).head? = some u ∧ t.span.start ≤ u.span.start) ∧
          ∀ u ∈ listed before, u.span.start < t.span.start := by
  have h : "if (a) \x7b let 1; (b) \x7d".utf8ByteSize ≤ maxOffset := by decide +kernel
  obtain ⟨hsub, hpairwise, hstatement⟩ := parse_sourceOrder "if (a) \x7b let 1; (b) \x7d" none h
  have hany : (parse "if (a) \x7b let 1; (b) \x7d" none).1.marks.any
      (fun | .statement t _ => t.literal == "(" | .token _ => false) := by decide +kernel
  obtain ⟨m, hm, hparen⟩ := List.any_eq_true.1 hany
  cases m with
  | token t => exact absurd hparen nofun
  | statement t v =>
    obtain ⟨before, after, hmarks⟩ := List.append_of_mem hm
    exact ⟨h, by decide +kernel, by decide +kernel, hsub, hpairwise, before, t, v, after, hmarks,
      beq_iff_eq.1 hparen, hstatement _ _ _ _ hmarks⟩

end ExprLang
