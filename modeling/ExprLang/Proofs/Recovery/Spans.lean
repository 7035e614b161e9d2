import ExprLang.Proofs.Recovery.Account

/-!
# The tokens of a tree

`Spans c n p i j` says that the tokens from `i` to `j` behind a cursor are read as `p`, on at most
`n` levels.  It is the grammar without precedence, and with gaps: in a list of statements there may
be tokens between two statements that belong to none, those of a statement that failed.  A list ends
before the token `j`, everything else with it.

All tokens that a tree keeps are among those that it spans (`Spans.between`).
-/

namespace ExprLang

/-- What a row of tokens is read as. -/
inductive Piece
  | expr (e : Expr)
  | stmt (st : Stmt)
  | stmts (ss : List Stmt)
  | block (b : Block)

/-- The token `j` ends a statement whose value ends with the token `k`: it is the same token, or a
semicolon behind it. -/
def Cursor.Ends (c : Cursor) (k j : Nat) : Prop :=
  j = k ∨ j = k + 1 ∧ (c.token j).kind = .semicolon

/-- What the tokens from `i` to `j` are read as. -/
inductive Spans (c : Cursor) : Nat → Piece → Nat → Nat → Prop
  | ident {n i : Nat} (hk : (c.token i).kind = .ident) :
      Spans c (n + 1) (.expr (.ident ⟨c.token i, (c.token i).literal⟩)) i i
  | number {n i v : Nat} (hk : (c.token i).kind = .int)
      (hv : Decimal.ofLiteral? (c.token i).literal = some v) :
      Spans c (n + 1) (.expr (.number (c.token i) v)) i i
  | boolean {n i : Nat} (hk : (c.token i).kind = .trueWord ∨ (c.token i).kind = .falseWord) :
      Spans c (n + 1) (.expr (.boolean (c.token i) ((c.token i).is .trueWord))) i i
  | unary {n i j : Nat} {r : Expr} (hk : (c.token i).kind = .bang ∨ (c.token i).kind = .minus)
      (hr : Spans c n (.expr r) (i + 1) j) :
      Spans c (n + 1) (.expr (.unary (c.token i) (c.token i).literal r)) i j
  | grouped {n i j : Nat} {e : Expr} (hl : (c.token i).kind = .lparen)
      (he : Spans c n (.expr e) (i + 1) j) (hr : (c.token (j + 1)).kind = .rparen) :
      Spans c (n + 1) (.expr e) i (j + 1)
  | conditional {n i j k : Nat} {q : Expr} {b : Block} (hw : (c.token i).kind = .ifWord)
      (hl : (c.token (i + 1)).kind = .lparen) (hq : Spans c n (.expr q) (i + 2) j)
      (hr : (c.token (j + 1)).kind = .rparen) (hb : Spans c n (.block b) (j + 2) k) :
      Spans c (n + 1) (.expr (.conditional (c.token i) q b none)) i k
  | conditionalElse {n i j k m : Nat} {q : Expr} {b a : Block} (hw : (c.token i).kind = .ifWord)
      (hl : (c.token (i + 1)).kind = .lparen) (hq : Spans c n (.expr q) (i + 2) j)
      (hr : (c.token (j + 1)).kind = .rparen) (hb : Spans c n (.block b) (j + 2) k)
      (he : (c.token (k + 1)).kind = .elseWord) (ha : Spans c n (.block a) (k + 2) m) :
      Spans c (n + 1) (.expr (.conditional (c.token i) q b (some a))) i m
  | binary {n i j k : Nat} {l r : Expr} (hl : Spans c (n + 1) (.expr l) i j)
      (ho : (c.token (j + 1)).kind.operator?.isSome) (hr : Spans c n (.expr r) (j + 2) k) :
      Spans c (n + 1) (.expr (.binary (c.token (j + 1)) l (c.token (j + 1)).literal r)) i k
  | binding {n i j k : Nat} {v : Expr} (hw : (c.token i).kind = .letWord)
      (hx : (c.token (i + 1)).kind = .ident) (ha : (c.token (i + 2)).kind = .assign)
      (hv : Spans c n (.expr v) (i + 3) k) (hj : c.Ends k j) :
      Spans c n (.stmt (.binding (c.token i) ⟨c.token (i + 1), (c.token (i + 1)).literal⟩ v)) i j
  | result {n i j k : Nat} {v : Expr} (hw : (c.token i).kind = .returnWord)
      (hv : Spans c n (.expr v) (i + 1) k) (hj : c.Ends k j) :
      Spans c n (.stmt (.result (c.token i) v)) i j
  | expression {n i j k : Nat} {v : Expr} (hv : Spans c n (.expr v) i k) (hj : c.Ends k j) :
      Spans c n (.stmt (.expression (c.token i) v)) i j
  | nil {n i : Nat} : Spans c n (.stmts []) i i
  | cons {n i j k : Nat} {st : Stmt} {ss : List Stmt} (hst : Spans c n (.stmt st) i k)
      (hss : Spans c n (.stmts ss) (k + 1) j) : Spans c n (.stmts (st :: ss)) i j
  | skip {n i j k : Nat} {ss : List Stmt} (hk : i ≤ k) (hss : Spans c n (.stmts ss) (k + 1) j) :
      Spans c n (.stmts ss) i j
  | block {n i j : Nat} {ss : List Stmt} (hl : (c.token i).kind = .lbrace)
      (hss : Spans c n (.stmts ss) (i + 1) j)
      (hr : (c.token j).kind = .rbrace ∨ (c.token j).kind = .eof) :
      Spans c n (.block (.mk (c.token i) ss)) i j

/-! ### The tokens that a tree keeps -/

mutual

def Expr.tokens : Expr → List Token
  | .ident x => [x.token]
  | .number t _ | .boolean t _ => [t]
  | .unary t _ r => t :: r.tokens
  | .binary t l _ r => l.tokens ++ t :: r.tokens
  | .conditional t q b none => t :: q.tokens ++ b.tokens
  | .conditional t q b (some a) => t :: q.tokens ++ b.tokens ++ a.tokens

def Stmt.tokens : Stmt → List Token
  | .binding t x v => t :: x.token :: v.tokens
  | .result t v | .expression t v => t :: v.tokens
  | .block b => b.tokens

def Block.tokens : Block → List Token
  | .mk t ss => t :: Stmt.tokensAll ss

def Stmt.tokensAll : List Stmt → List Token
  | [] => []
  | s :: ss => s.tokens ++ Stmt.tokensAll ss

end

def Piece.tokens : Piece → List Token
  | .expr e => e.tokens
  | .stmt st => st.tokens
  | .stmts ss => Stmt.tokensAll ss
  | .block b => b.tokens

section

variable {c : Cursor} {n i j k : Nat} {p : Piece}

theorem Cursor.Ends.le (h : c.Ends k j) : k ≤ j := by
  rcases h with rfl | ⟨rfl, -⟩
  · exact Nat.le_refl _
  · exact Nat.le_succ _

theorem Spans.le (h : Spans c n p i j) : i ≤ j := by
  induction h with
  | ident | number | boolean | nil => exact Nat.le_refl _
  | unary _ _ ih | grouped _ _ _ ih | block _ _ _ ih => omega
  | conditional _ _ _ _ _ ihq ihb => omega
  | conditionalElse _ _ _ _ _ _ _ ihq ihb iha => omega
  | binary _ _ _ ihl ihr => omega
  | binding _ _ _ _ hj ih | result _ _ hj ih | expression _ hj ih =>
    have := hj.le
    omega
  | cons _ _ ihst ihss => omega
  | skip _ _ ih => omega

/-- Whatever is not a list begins with a token. -/
theorem Spans.kind_ne_eof (h : Spans c n p i j) :
    (∃ ss, p = .stmts ss) ∨ (c.token i).kind ≠ .eof := by
  induction h with
  | ident hk | number hk | grouped hk | conditional hk | conditionalElse hk | binding hk | result hk
  | block hk =>
    rw [hk]
    exact .inr nofun
  | boolean hk | unary hk =>
    rcases hk with hk | hk <;> rw [hk] <;> exact .inr nofun
  | binary _ _ _ ih | expression _ _ ih => exact .inr (ih.resolve_left nofun)
  | nil | cons | skip => exact .inl ⟨_, rfl⟩

/-- The token is the one with some number from `i` to `j`, and not the end token. -/
def Cursor.Between (c : Cursor) (i j : Nat) (t : Token) : Prop :=
  ∃ k, i ≤ k ∧ k ≤ j ∧ t = c.token k ∧ t.kind ≠ .eof

theorem Cursor.Between.mono {i' j' : Nat} {t : Token} (h : c.Between i j t) (hi : i' ≤ i)
    (hj : j ≤ j') : c.Between i' j' t := by
  obtain ⟨k, hik, hkj, ht⟩ := h
  exact ⟨k, Nat.le_trans hi hik, Nat.le_trans hkj hj, ht⟩

theorem Cursor.between_token {q : Kind} (hi : i ≤ k) (hj : k ≤ j) (hk : (c.token k).kind = q)
    (hq : q ≠ .eof) : c.Between i j (c.token k) :=
  ⟨k, hi, hj, rfl, fun h => hq (hk.symm.trans h)⟩

/-- What is read begins with its first token. -/
theorem Spans.between_first (h : Spans c n p i j) (hp : ∀ ss, p ≠ .stmts ss) :
    c.Between i j (c.token i) :=
  ⟨i, Nat.le_refl _, h.le, rfl, h.kind_ne_eof.resolve_left fun ⟨ss, hss⟩ => hp ss hss⟩

/-- All tokens that are kept are among those that are spanned. -/
theorem Spans.between (h : Spans c n p i j) : ∀ t ∈ p.tokens, c.Between i j t := by
  induction h with
  | ident hk => exact List.forall_mem_singleton.2 ((Spans.ident (n := n) hk).between_first nofun)
  | number hk hv =>
    exact List.forall_mem_singleton.2 ((Spans.number (n := n) hk hv).between_first nofun)
  | boolean hk =>
    exact List.forall_mem_singleton.2 ((Spans.boolean (n := n) hk).between_first nofun)
  | unary hk hr ih =>
    have hfirst := (Spans.unary hk hr).between_first nofun
    exact List.forall_mem_cons.2 ⟨hfirst, fun t ht => (ih t ht).mono (by omega) (by omega)⟩
  | grouped hl he hr ih => exact fun t ht => (ih t ht).mono (by omega) (by omega)
  | conditional hw hl hq hr hb ihq ihb =>
    have hfirst := (Spans.conditional hw hl hq hr hb).between_first nofun
    have hjk := hb.le
    have hij := hq.le
    refine List.forall_mem_cons.2 ⟨hfirst, List.forall_mem_append.2 ⟨?_, ?_⟩⟩
    · exact fun t ht => (ihq t ht).mono (by omega) (by omega)
    · exact fun t ht => (ihb t ht).mono (by omega) (by omega)
  | conditionalElse hw hl hq hr hb he ha ihq ihb iha =>
    have hfirst := (Spans.conditionalElse hw hl hq hr hb he ha).between_first nofun
    have hij := hq.le
    have hjk := hb.le
    have hkm := ha.le
    refine List.forall_mem_cons.2 ⟨hfirst, List.forall_mem_append.2
      ⟨List.forall_mem_append.2 ⟨?_, ?_⟩, ?_⟩⟩
    · exact fun t ht => (ihq t ht).mono (by omega) (by omega)
    · exact fun t ht => (ihb t ht).mono (by omega) (by omega)
    · exact fun t ht => (iha t ht).mono (by omega) (by omega)
  | @binary n i j k l r hl ho hr ihl ihr =>
    have hij := hl.le
    have hjk := hr.le
    have hop : (c.token (j + 1)).kind ≠ .eof := fun h => by rw [h] at ho; exact absurd ho nofun
    refine List.forall_mem_append.2 ⟨?_, List.forall_mem_cons.2 ⟨?_, ?_⟩⟩
    · exact fun t ht => (ihl t ht).mono (by omega) (by omega)
    · exact ⟨j + 1, by omega, by omega, rfl, hop⟩
    · exact fun t ht => (ihr t ht).mono (by omega) (by omega)
  | binding hw hx ha hv hj ih =>
    have hfirst := (Spans.binding hw hx ha hv hj).between_first nofun
    have hik := hv.le
    have hkj := hj.le
    refine List.forall_mem_cons.2 ⟨hfirst, List.forall_mem_cons.2 ⟨?_, ?_⟩⟩
    · exact Cursor.between_token (by omega) (by omega) hx nofun
    · exact fun t ht => (ih t ht).mono (by omega) (by omega)
  | result hw hv hj ih =>
    have hfirst := (Spans.result hw hv hj).between_first nofun
    exact List.forall_mem_cons.2 ⟨hfirst, fun t ht => (ih t ht).mono (by omega) hj.le⟩
  | expression hv hj ih =>
    have hfirst := (Spans.expression hv hj).between_first nofun
    exact List.forall_mem_cons.2 ⟨hfirst, fun t ht => (ih t ht).mono (by omega) hj.le⟩
  | nil => exact fun t ht => absurd ht List.not_mem_nil
  | cons hst hss ihst ihss =>
    have hik := hst.le
    have hkj := hss.le
    refine List.forall_mem_append.2 ⟨?_, ?_⟩
    · exact fun t ht => (ihst t ht).mono (by omega) (by omega)
    · exact fun t ht => (ihss t ht).mono (by omega) (by omega)
  | skip hk hss ih => exact fun t ht => (ih t ht).mono (by omega) (by omega)
  | block hl hss hr ih =>
    have hfirst := (Spans.block hl hss hr).between_first nofun
    exact List.forall_mem_cons.2 ⟨hfirst, fun t ht => (ih t ht).mono (by omega) (by omega)⟩

end

end ExprLang
