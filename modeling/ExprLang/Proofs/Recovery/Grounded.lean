import ExprLang.Proofs.Printing.Coherent
import ExprLang.Proofs.Recovery.Reports

/-!
# Trees that are grounded in a source

A node is grounded in some tokens if its own token is one of them, is of a kind that such a node is
read from, and says what the node says (`Expr.Grounded`, `Stmt.Grounded`, `Block.Grounded`).  The
forms of the grammar take the token that they stand on without a look at it; still every node of
every program is grounded in the tokens of its source, also where statements failed
(`parse_grounded`).  The reason is in the kinds that `Spans` fixes, and in how tokens of a kind are
spelt.
-/

namespace ExprLang

open Grammar

/-- The token of a name is one of these, and reads as the name. -/
def Ident.Grounded (ts : List Token) (x : Ident) : Prop := x.token ∈ ts ∧ x.Coherent

mutual

/-- The nodes of an expression have their tokens among these, and agree with them. -/
def Expr.Grounded (ts : List Token) : Expr → Prop
  | .ident x => x.Grounded ts
  | .number t v => t ∈ ts ∧ t.kind = .int ∧ ∃ n : Nat, v = n ∧ Numeral t.literal n
  | .boolean t v => t ∈ ts ∧ t.Spelt (if v then .trueWord else .falseWord)
  | .unary t op r => t ∈ ts ∧ (t.Spelt .bang ∨ t.Spelt .minus) ∧ op = t.literal ∧ r.Grounded ts
  | .binary t l op r =>
    t ∈ ts ∧ (∃ k p, Operator k p ∧ t.Spelt k) ∧ op = t.literal ∧ l.Grounded ts ∧ r.Grounded ts
  | .conditional t q b none => t ∈ ts ∧ t.Spelt .ifWord ∧ q.Grounded ts ∧ b.Grounded ts
  | .conditional t q b (some a) =>
    t ∈ ts ∧ t.Spelt .ifWord ∧ q.Grounded ts ∧ b.Grounded ts ∧ a.Grounded ts

/-- The nodes of a statement have their tokens among these, and agree with them.  An expression as a
statement has the token that it begins with, which may be a parenthesis; no block is a statement. -/
def Stmt.Grounded (ts : List Token) : Stmt → Prop
  | .binding t x v => t ∈ ts ∧ t.Spelt .letWord ∧ x.Grounded ts ∧ v.Grounded ts
  | .result t v => t ∈ ts ∧ t.Spelt .returnWord ∧ v.Grounded ts
  | .expression t v => t ∈ ts ∧ t.kind.opensExpr ∧ v.Grounded ts
  | .block _ => False

/-- The opening brace of a block is one of these tokens, and the statements are grounded in them. -/
def Block.Grounded (ts : List Token) : Block → Prop
  | .mk t ss => t ∈ ts ∧ t.Spelt .lbrace ∧ Stmt.GroundedAll ts ss

def Stmt.GroundedAll (ts : List Token) : List Stmt → Prop
  | [] => True
  | s :: ss => s.Grounded ts ∧ Stmt.GroundedAll ts ss

end

def Program.Grounded (ts : List Token) (p : Program) : Prop :=
  ∀ st ∈ p.statements, st.Grounded ts

def Piece.Grounded (ts : List Token) : Piece → Prop
  | .expr e => e.Grounded ts
  | .stmt st => st.Grounded ts
  | .stmts ss => Stmt.GroundedAll ts ss
  | .block b => b.Grounded ts

theorem Stmt.groundedAll_iff {ts : List Token} {ss : List Stmt} :
    Stmt.GroundedAll ts ss ↔ ∀ st ∈ ss, st.Grounded ts := by
  induction ss with
  | nil => simp [Stmt.GroundedAll]
  | cons st ss ih => simp [Stmt.GroundedAll, ih]

/-! ### Kinds -/

/-- What opens an expression is what some form of operand begins with. -/
theorem Kind.opensExpr_eq_isSome {expr : Power → Parse Expr} (k : Kind) :
    k.opensExpr = (operand? expr k).isSome := by
  cases k <;> rfl

theorem Operator.of_isSome {k : Kind} (h : k.operator?.isSome) : Operator k k.power := by
  apply operator_of_lt_power (p := .lowest)
  revert h
  cases k <;> decide

variable {c : Cursor} {ts : List Token} {n i j : Nat} {p : Piece}

/-- An expression begins with a token that opens one: its own, the one of its left side, or a
parenthesis. -/
theorem Spans.opensExpr {e : Expr} (h : Spans c n (.expr e) i j) :
    (c.token i).kind.opensExpr := by
  generalize hp : Piece.expr e = p at h
  induction h generalizing e with
  | ident hk | number hk | grouped hk | conditional hk | conditionalElse hk => rw [hk]; rfl
  | boolean hk | unary hk => rcases hk with hk | hk <;> rw [hk] <;> rfl
  | binary _ _ _ ih => exact ih rfl
  | _ => exact absurd hp nofun

/-! ### Trees in a row of tokens -/

/-- Apart from the end token, all tokens behind the cursor are among these, and read as a scanner
reads them. -/
def Cursor.Reads (c : Cursor) (ts : List Token) : Prop :=
  ∀ k, (c.token k).kind ≠ .eof → c.token k ∈ ts ∧ (c.token k).IsLexeme

namespace Cursor.Reads

variable {k : Kind} (h : c.Reads ts)

include h

theorem spelt (hk : (c.token i).kind = k) {w : String} (hw : k.spelling? = some w) :
    c.token i ∈ ts ∧ (c.token i).Spelt k := by
  have hne : (c.token i).kind ≠ .eof := by
    intro he
    rw [← hk, he] at hw
    exact absurd hw nofun
  exact (h i hne).imp_right fun hl => hl.spelt hk hw

theorem ident (hk : (c.token i).kind = .ident) :
    Ident.Grounded ts ⟨c.token i, (c.token i).literal⟩ :=
  (h i (by rw [hk]; nofun)).imp_right fun hl => hl.ident hk

end Cursor.Reads

/-- What spans some tokens is grounded in them. -/
theorem Spans.grounded (h : Spans c n p i j) (hc : c.Reads ts) : p.Grounded ts := by
  induction h with
  | ident hk => exact hc.ident hk
  | number hk hv =>
    obtain ⟨hm, -⟩ := hc _ (by rw [hk]; nofun)
    exact ⟨hm, hk, _, rfl, numeral_iff.2 hv⟩
  | boolean hk =>
    rcases hk with hk | hk
    · simpa [Piece.Grounded, Expr.Grounded, Token.is, hk] using hc.spelt hk rfl
    · simpa [Piece.Grounded, Expr.Grounded, Token.is, hk] using hc.spelt hk rfl
  | unary hk _ ih =>
    rcases hk with hk | hk
    · obtain ⟨hm, hs⟩ := hc.spelt hk rfl
      exact ⟨hm, .inl hs, rfl, ih⟩
    · obtain ⟨hm, hs⟩ := hc.spelt hk rfl
      exact ⟨hm, .inr hs, rfl, ih⟩
  | grouped _ _ _ ih => exact ih
  | conditional hw _ _ _ _ ihq ihb =>
    obtain ⟨hm, hs⟩ := hc.spelt hw rfl
    exact ⟨hm, hs, ihq, ihb⟩
  | conditionalElse hw _ _ _ _ _ _ ihq ihb iha =>
    obtain ⟨hm, hs⟩ := hc.spelt hw rfl
    exact ⟨hm, hs, ihq, ihb, iha⟩
  | binary _ ho _ ihl ihr =>
    have hp := Operator.of_isSome ho
    obtain ⟨hm, hs⟩ := hc.spelt rfl hp.spelling?
    exact ⟨hm, ⟨_, _, hp, hs⟩, rfl, ihl, ihr⟩
  | binding hw hx _ _ _ ih =>
    obtain ⟨hm, hs⟩ := hc.spelt hw rfl
    exact ⟨hm, hs, hc.ident hx, ih⟩
  | result hw _ _ ih =>
    obtain ⟨hm, hs⟩ := hc.spelt hw rfl
    exact ⟨hm, hs, ih⟩
  | expression hv _ ih =>
    obtain ⟨hm, -⟩ := hc _ (hv.kind_ne_eof.resolve_left (by rintro ⟨ss, ⟨⟩⟩))
    exact ⟨hm, hv.opensExpr, ih⟩
  | nil => exact True.intro
  | cons _ _ ihst ihss => exact ⟨ihst, ihss⟩
  | skip _ _ ih => exact ih
  | block hl _ _ ih =>
    obtain ⟨hm, hs⟩ := hc.spelt hl rfl
    exact ⟨hm, hs, ih⟩

/-! ### Whole sources -/

/-- A source is read from its tokens. -/
theorem reads_tokenize (source : String) (file : Option String) :
    (Session.ofSource source file).cursor.Reads (tokenize source file) := by
  intro k hk
  rw [token_ofSource] at hk ⊢
  have hm := tokenStream_mem source file k
  exact ⟨hm, isLexeme_of_mem_tokenize hm hk⟩

/-- **Programs are grounded in their sources.**  Each node of what is read of a source has a token
of the source, of the kind and with the literal that the node asks for, whether or not anything was
reported; and no block stands as a statement. -/
theorem parse_grounded (source : String) (file : Option String) :
    (parse source file).1.Grounded (tokenize source file) := by
  obtain ⟨j, hss⟩ := spans_parse source file
  have hall : Stmt.GroundedAll (tokenize source file) (parse source file).1.statements :=
    hss.grounded (reads_tokenize source file)
  exact Stmt.groundedAll_iff.1 hall

end ExprLang
