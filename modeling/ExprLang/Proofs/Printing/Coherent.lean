import ExprLang.Proofs.Grammar.Derives
import ExprLang.Proofs.Printing.Spelling
import ExprLang.Tree.Canonical

/-!
# Trees that agree with their tokens

A tree that was built by hand may carry tokens that have nothing to do with its nodes; in a coherent
one the tokens are those that a scanner reads for the nodes (`Expr.Coherent`, `Stmt.Coherent`).  The
trees that are derived from what a scanner reads are coherent (`Derives.coherent`).

`shape` is what is left of a tree without the places of its tokens.  It fixes the canonical text.
-/

namespace ExprLang

/-! ### Coherent trees -/

/-- A token of kind `k` that is spelt as all tokens of this kind are. -/
def Token.Spelt (t : Token) (k : Kind) : Prop := t.kind = k ∧ k.spelling? = some t.literal

/-- A name is a word that is not reserved, and the text of its token. -/
structure Ident.Coherent (x : Ident) : Prop where
  kind : x.token.kind = .ident
  literal : x.token.literal = x.name
  nonempty : x.name.toList ≠ []
  letters : ∀ c ∈ x.name.toList, Lexeme.isLetter c
  free : Kind.reserved.lookup x.name = none

/-- An expression without `if` whose nodes agree with their tokens. -/
def Expr.Coherent : Expr → Prop
  | .ident x => x.Coherent
  | .number t v => t.kind = .int ∧ ∃ n : Nat, v = n ∧ Numeral t.literal n
  | .boolean t v => t.Spelt (if v then .trueWord else .falseWord)
  | .unary t op r => (t.Spelt .bang ∨ t.Spelt .minus) ∧ op = t.literal ∧ r.Coherent
  | .binary t l op r =>
    (∃ k p, Operator k p ∧ t.Spelt k) ∧ op = t.literal ∧ l.Coherent ∧ r.Coherent
  | .conditional .. => False

/-- A `let`, a `return` or an expression that agrees with its tokens.  Of the token of an expression
statement nothing is asked. -/
def Stmt.Coherent : Stmt → Prop
  | .binding t x v => t.Spelt .letWord ∧ x.Coherent ∧ v.Coherent
  | .result t v => t.Spelt .returnWord ∧ v.Coherent
  | .expression _ v => v.Coherent
  | .block _ => False

def Expr.IsOperation : Expr → Prop
  | .unary .. | .binary .. => True
  | _ => False

/-- A program of coherent statements; expressions as statements are operations, apart from the last
statement. -/
structure Program.Coherent (p : Program) : Prop where
  statements : ∀ st ∈ p.statements, st.Coherent
  operations : ∀ t v, .expression t v ∈ p.statements.dropLast → v.IsOperation

def Expr.IfFree : Expr → Prop
  | .unary _ _ r => r.IfFree
  | .binary _ l _ r => l.IfFree ∧ r.IfFree
  | .conditional .. => False
  | _ => True

/-! ### What is read is coherent -/

theorem Kind.ofWord_eq_ident {word : String} :
    ofWord word = .ident ↔ reserved.lookup word = none := by
  unfold ofWord reserved
  simp only [List.lookup_cons, List.lookup_nil]
  repeat' split
  all_goals simp

theorem Token.IsLexeme.spelt {t : Token} {k : Kind} {w : String} (h : t.IsLexeme)
    (hk : t.kind = k) (hw : k.spelling? = some w) : t.Spelt k := by
  obtain ⟨c, cs, h⟩ := h
  rw [hk] at h
  have hl : t.literal.toList = w.toList := Lexeme.eq_toList_of_leading h hw
  exact ⟨hk, by rw [hw, String.toList_inj.1 hl]⟩

theorem Token.IsLexeme.ident {t : Token} (h : t.IsLexeme) (hk : t.kind = .ident) :
    Ident.Coherent ⟨t, t.literal⟩ := by
  obtain ⟨c, cs, h⟩ := h
  rw [hk] at h
  obtain ⟨hne, hl, hw⟩ := Lexeme.word_of_leading h
  rw [String.ofList_toList] at hw
  exact ⟨hk, rfl, hne, hl, Kind.ofWord_eq_ident.1 hw⟩

theorem Operator.spelling? {k : Kind} {p : Power} (h : Operator k p) :
    k.spelling? = some k.name := by
  cases h <;> rfl

theorem Derives.coherent {p : Power} {e : Expr} {before after : List Token} {n : Nat}
    (h : Derives (.expr p e) before n after) (hb : ∀ t ∈ before, t.IsLexeme) (he : e.IfFree) :
    e.Coherent := by
  generalize hf : Form.expr p e = f at h
  induction h generalizing p e with
  | ident ht =>
    cases hf
    exact (hb _ (List.mem_cons_self ..)).ident ht
  | number ht hk =>
    cases hf
    exact ⟨ht, _, rfl, hk⟩
  | truth ht | falsity ht =>
    cases hf
    exact (hb _ (List.mem_cons_self ..)).spelt ht rfl
  | grouped _ _ _ ih =>
    cases hf
    exact ih (fun t ht => hb t (List.mem_cons_of_mem _ ht)) he rfl
  | conditional | conditionalElse =>
    cases hf
    exact he.elim
  | unary hop _ ih =>
    cases hf
    have hop' := hb _ (List.mem_cons_self ..)
    refine ⟨?_, rfl, ih (fun t ht => hb t (List.mem_cons_of_mem _ ht)) he rfl⟩
    exact hop.imp (fun hk => hop'.spelt hk rfl) (fun hk => hop'.spelt hk rfl)
  | binary hop hl _ ihl ihr =>
    cases hf
    have hmid := fun t ht => hb t (hl.suffix.subset ht)
    have hop' := hmid _ (List.mem_cons_self ..)
    exact ⟨⟨_, _, hop, hop'.spelt rfl hop.spelling?⟩, rfl, ihl hb he.1 rfl,
      ihr (fun t ht => hmid t (List.mem_cons_of_mem _ ht)) he.2 rfl⟩
  | looser _ _ ih =>
    cases hf
    exact ih hb he rfl
  | _ => exact absurd hf nofun

/-! ### How deep canonical texts nest -/

/-- How many levels the canonical text of an expression without `if` takes: the parentheses around
an operation are one, and so is its right side. -/
def Expr.need : Expr → Nat
  | .unary _ _ r => 2 + r.need
  | .binary _ l _ r => max (1 + l.need) (2 + r.need)
  | _ => 1

def Stmt.need : Stmt → Nat
  | .binding _ _ v | .result _ v | .expression _ v => v.need
  | .block _ => 0

/-! ### Shapes -/

/-- The token without its place. -/
def Token.shape (t : Token) : Token := { t with span := default }

theorem Token.shape_eq {t u : Token} (hk : t.kind = u.kind) (hl : t.literal = u.literal) :
    t.shape = u.shape := by
  unfold shape
  rw [hk, hl]

mutual

def Expr.shape : Expr → Expr
  | .ident x => .ident ⟨x.token.shape, x.name⟩
  | .number t v => .number t.shape v
  | .boolean t v => .boolean t.shape v
  | .unary t op r => .unary t.shape op r.shape
  | .binary t l op r => .binary t.shape l.shape op r.shape
  | .conditional t c b none => .conditional t.shape c.shape b.shape none
  | .conditional t c b (some a) => .conditional t.shape c.shape b.shape (some a.shape)

/-- The statement without the places of its tokens, and without the token of an expression
statement. -/
def Stmt.shape : Stmt → Stmt
  | .binding t x v => .binding t.shape ⟨x.token.shape, x.name⟩ v.shape
  | .result t v => .result t.shape v.shape
  | .expression _ v => .expression default v.shape
  | .block b => .block b.shape

def Block.shape : Block → Block
  | .mk t ss => .mk t.shape (Stmt.shapes ss)

def Stmt.shapes : List Stmt → List Stmt
  | [] => []
  | s :: ss => s.shape :: Stmt.shapes ss

end

def Program.shape (p : Program) : Program := ⟨p.statements.map Stmt.shape⟩

mutual

theorem Expr.text_shape : (e : Expr) → e.shape.text = e.text
  | .ident _ | .number _ _ | .boolean _ _ => by simp [Expr.shape, Expr.text, Token.shape]
  | .unary _ _ r => by simp [Expr.shape, Expr.text, r.text_shape]
  | .binary _ l _ r => by simp [Expr.shape, Expr.text, l.text_shape, r.text_shape]
  | .conditional _ c b none => by simp [Expr.shape, Expr.text, c.text_shape, b.text_shape]
  | .conditional _ c b (some a) => by
    simp [Expr.shape, Expr.text, c.text_shape, b.text_shape, a.text_shape]

theorem Stmt.text_shape : (st : Stmt) → st.shape.text = st.text
  | .binding _ _ v | .result _ v | .expression _ v => by
    simp [Stmt.shape, Stmt.text, Token.shape, v.text_shape]
  | .block b => by simp [Stmt.shape, Stmt.text, b.text_shape]

theorem Block.text_shape : (b : Block) → b.shape.text = b.text
  | .mk _ ss => by simp [Block.shape, Block.text, Stmt.textAfter_shapes ss]

theorem Stmt.textAfter_shapes : (ss : List Stmt) → (before : String) →
    Stmt.textAfter before (Stmt.shapes ss) = Stmt.textAfter before ss
  | [], _ => rfl
  | s :: ss, _ => by simp [Stmt.shapes, Stmt.textAfter, s.text_shape, Stmt.textAfter_shapes ss]

end

theorem Program.text_shape (p : Program) : p.shape.text = p.text := by
  unfold Program.shape Program.text
  rw [List.map_map]
  congr 2
  exact funext Stmt.text_shape

end ExprLang
