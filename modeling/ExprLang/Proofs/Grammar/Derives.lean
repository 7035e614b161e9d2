import ExprLang.Proofs.Parsing.Stream
import ExprLang.Power
import ExprLang.Token.Lexeme
import ExprLang.Tree

/-!
# The grammar as a relation

`Derives f before n after` says that the tokens `before` begin with a text of the form `f`, that
`after` is what stands behind it, and that its expressions nest `n` deep.  It is the grammar

* statements: `let IDENT = E`, `return E` and `E`, each with a semicolon or without; without one no
  `-` may follow (`Ends`);
* `E`: binary operators, grouped to the left, in the strata `== !=`, `< >`, `+ -` and `* /`
  (`Operator`), below them the prefixes `!` and `-`, below those the operands: names, numbers, truth
  values, `( E )` and `if ( E ) Block else Block`, of which the last part may be missing;
* blocks: statements between braces; only at the end of the source may the closing one be missing.

The relation knows nothing of cursors, of powers that are compared, or of a bound on the nesting.
-/

namespace ExprLang

/-- The stratum of what an operator of this power has on its right side: the next tighter one.
Below the unary operators there is none for operations. -/
def Power.tighter : Power → Power
  | lowest => equality | equality => comparison | comparison => sum | sum => product
  | product | unary | call => unary

/-- What a text can be: an expression of a stratum, a statement, a list of statements or a block.
The stratum `lowest` holds all expressions, the stratum `call` only operands. -/
inductive Form
  | expr (stratum : Power) (e : Expr)
  | stmt (st : Stmt)
  | stmts (ss : List Stmt)
  | block (b : Block)

inductive Operator : Kind → Power → Prop
  | equal : Operator .equal .equality
  | notEqual : Operator .notEqual .equality
  | less : Operator .less .comparison
  | greater : Operator .greater .comparison
  | plus : Operator .plus .sum
  | minus : Operator .minus .sum
  | star : Operator .star .product
  | slash : Operator .slash .product

/-- The literal is a decimal numeral, and its value `n` is less than `2 ^ 63`. -/
def Numeral (literal : String) (n : Nat) : Prop :=
  literal.toList ≠ [] ∧ (∀ c ∈ literal.toList, c.isDigit) ∧ Decimal.value literal.toList = n ∧
    n < 9223372036854775808

/-- The end of a statement: a semicolon, or nothing; in the latter case a `-` would belong to the
expression before it. -/
inductive Ends : List Token → List Token → Prop
  | semicolon {t : Token} {after : List Token} (ht : t.kind = .semicolon) : Ends (t :: after) after
  | bare {after : List Token} (h : headKind after ≠ .minus) : Ends after after

/-- The grammar.  The number counts levels of expressions: right sides, expressions between
parentheses and whatever stands inside an `if` are a level further in. -/
inductive Derives : Form → List Token → Nat → List Token → Prop
  | ident {t : Token} {after : List Token} (ht : t.kind = .ident) :
      Derives (.expr .call (.ident ⟨t, t.literal⟩)) (t :: after) 1 after
  | number {t : Token} {k : Nat} {after : List Token} (ht : t.kind = .int)
      (hk : Numeral t.literal k) : Derives (.expr .call (.number t k)) (t :: after) 1 after
  | truth {t : Token} {after : List Token} (ht : t.kind = .trueWord) :
      Derives (.expr .call (.boolean t true)) (t :: after) 1 after
  | falsity {t : Token} {after : List Token} (ht : t.kind = .falseWord) :
      Derives (.expr .call (.boolean t false)) (t :: after) 1 after
  | grouped {l r : Token} {e : Expr} {before after : List Token} {n : Nat} (hl : l.kind = .lparen)
      (hr : r.kind = .rparen) (he : Derives (.expr .lowest e) before n (r :: after)) :
      Derives (.expr .call e) (l :: before) (1 + n) after
  | conditional {w l r : Token} {c : Expr} {b : Block} {before mid after : List Token} {m n : Nat}
      (hw : w.kind = .ifWord) (hl : l.kind = .lparen) (hr : r.kind = .rparen)
      (hc : Derives (.expr .lowest c) before m (r :: mid)) (hb : Derives (.block b) mid n after) :
      Derives (.expr .call (.conditional w c b none)) (w :: l :: before) (1 + max m n) after
  | conditionalElse {w l r s : Token} {c : Expr} {b a : Block} {before mid mid' after : List Token}
      {m n k : Nat} (hw : w.kind = .ifWord) (hl : l.kind = .lparen) (hr : r.kind = .rparen)
      (hs : s.kind = .elseWord) (hc : Derives (.expr .lowest c) before m (r :: mid))
      (hb : Derives (.block b) mid n (s :: mid')) (ha : Derives (.block a) mid' k after) :
      Derives (.expr .call (.conditional w c b (some a))) (w :: l :: before)
        (1 + max m (max n k)) after
  | unary {op : Token} {e : Expr} {before after : List Token} {n : Nat}
      (hop : op.kind = .bang ∨ op.kind = .minus) (he : Derives (.expr .unary e) before n after) :
      Derives (.expr .unary (.unary op op.literal e)) (op :: before) (1 + n) after
  | binary {op : Token} {p : Power} {l r : Expr} {before mid after : List Token} {m n : Nat}
      (hop : Operator op.kind p) (hl : Derives (.expr p l) before m (op :: mid))
      (hr : Derives (.expr p.tighter r) mid n after) :
      Derives (.expr p (.binary op l op.literal r)) before (max m (1 + n)) after
  | looser {p q : Power} {e : Expr} {before after : List Token} {n : Nat} (h : p < q)
      (he : Derives (.expr q e) before n after) : Derives (.expr p e) before n after
  | binding {w x a : Token} {v : Expr} {before mid after : List Token} {n : Nat}
      (hw : w.kind = .letWord) (hx : x.kind = .ident) (ha : a.kind = .assign)
      (hv : Derives (.expr .lowest v) before n mid) (he : Ends mid after) :
      Derives (.stmt (.binding w ⟨x, x.literal⟩ v)) (w :: x :: a :: before) n after
  | result {w : Token} {v : Expr} {before mid after : List Token} {n : Nat}
      (hw : w.kind = .returnWord) (hv : Derives (.expr .lowest v) before n mid)
      (he : Ends mid after) : Derives (.stmt (.result w v)) (w :: before) n after
  | expression {t : Token} {v : Expr} {before mid after : List Token} {n : Nat}
      (hv : Derives (.expr .lowest v) (t :: before) n mid) (he : Ends mid after) :
      Derives (.stmt (.expression t v)) (t :: before) n after
  | nil {after : List Token} : Derives (.stmts []) after 0 after
  | cons {st : Stmt} {ss : List Stmt} {before mid after : List Token} {m n : Nat}
      (hst : Derives (.stmt st) before m mid) (hss : Derives (.stmts ss) mid n after) :
      Derives (.stmts (st :: ss)) before (max m n) after
  | closed {l r : Token} {ss : List Stmt} {before after : List Token} {n : Nat}
      (hl : l.kind = .lbrace) (hr : r.kind = .rbrace)
      (hss : Derives (.stmts ss) before n (r :: after)) :
      Derives (.block (.mk l ss)) (l :: before) n after
  | unclosed {l : Token} {ss : List Stmt} {before : List Token} {n : Nat} (hl : l.kind = .lbrace)
      (hss : Derives (.stmts ss) before n []) : Derives (.block (.mk l ss)) (l :: before) n []

/-! ### Powers and operators -/

namespace Power

variable {p q : Power}

/-- What exceeds a power is as tight as its right side. -/
theorem rank_tighter_le_of_lt (h : p < q) : p.tighter.rank ≤ q.rank := by
  revert h
  cases p <;> cases q <;> decide

theorem lt_of_rank_tighter_le (h : p.tighter.rank ≤ q.rank) (hq : q.rank < 5) : p < q := by
  revert h hq
  cases p <;> cases q <;> decide

theorem rank_le_rank_tighter (hp : p.rank ≤ 5) : p.rank ≤ p.tighter.rank := by
  revert hp
  cases p <;> decide

theorem eq_of_rank_eq (h : p.rank = q.rank) : p = q := by
  revert h
  cases p <;> cases q <;> decide

theorem rank_tighter_le (p : Power) : p.tighter.rank ≤ 5 := by cases p <;> decide

end Power

theorem Operator.power_eq {k : Kind} {p : Power} (h : Operator k p) : k.power = p := by
  cases h <;> rfl

theorem Operator.rank_pos {k : Kind} {p : Power} (h : Operator k p) : 0 < p.rank := by
  cases h <;> decide

theorem Operator.rank_lt {k : Kind} {p : Power} (h : Operator k p) : p.rank < 5 := by
  cases h <;> decide

/-- What exceeds some power is an operator of its own power. -/
theorem operator_of_lt_power {k : Kind} {p : Power} (h : p < k.power) : Operator k k.power := by
  cases k
  case equal => exact .equal
  case notEqual => exact .notEqual
  case less => exact .less
  case greater => exact .greater
  case plus => exact .plus
  case minus => exact .minus
  case star => exact .star
  case slash => exact .slash
  all_goals exact absurd h p.not_lt_lowest

theorem numeral_iff {literal : String} {n : Nat} :
    Numeral literal n ↔ Decimal.ofLiteral? literal = some n := Decimal.ofLiteral?_eq_some.symm

theorem Ends.suffix {mid after : List Token} (h : Ends mid after) : after <:+ mid := by
  cases h with
  | semicolon => exact List.suffix_cons _ _
  | bare => exact List.suffix_rfl

/-! ### How a text begins -/

namespace Kind

def opensExpr : Kind → Bool
  | ident | int | trueWord | falseWord | bang | minus | lparen | ifWord => true
  | _ => false

def opensStmt (k : Kind) : Bool := k.opensExpr || k == letWord || k == returnWord

/-- Behind a statement without a semicolon a token of such a kind is not taken for a part of it. -/
def Separate (k : Kind) : Prop := k ≠ semicolon ∧ k ≠ elseWord ∧ (k = minus ∨ k.power = .lowest)

theorem separate_of_opensStmt {k : Kind} (h : k.opensStmt) : k.Separate := by
  revert h
  unfold Separate
  cases k <;> decide

theorem separate_rbrace : Separate rbrace := by
  unfold Separate
  decide

theorem separate_eof : Separate eof := by
  unfold Separate
  decide

end Kind

namespace Form

/-- How a form begins.  An empty list of statements takes no token. -/
def Begins (before after : List Token) : Form → Prop
  | expr _ _ => (headKind before).opensExpr
  | stmt _ => (headKind before).opensStmt
  | stmts _ => before = after ∨ (headKind before).opensStmt
  | block _ => headKind before = .lbrace

end Form

namespace Derives

variable {f : Form} {p : Power} {e : Expr} {st : Stmt} {ss : List Stmt} {b : Block}
  {before after : List Token} {n : Nat}

theorem begins (h : Derives f before n after) : f.Begins before after := by
  induction h with
  | ident ht | number ht | truth ht | falsity ht => simp [Form.Begins, ht, Kind.opensExpr]
  | grouped hl => simp [Form.Begins, hl, Kind.opensExpr]
  | conditional hw | conditionalElse hw => simp [Form.Begins, hw, Kind.opensExpr]
  | unary hop => rcases hop with hop | hop <;> simp [Form.Begins, hop, Kind.opensExpr]
  | binary _ _ _ ihl => exact ihl
  | looser _ _ ih => exact ih
  | binding hw | result hw => simp [Form.Begins, hw, Kind.opensStmt]
  | expression _ _ ih =>
    simp only [Form.Begins, headKind_cons] at ih
    simp [Form.Begins, Kind.opensStmt, ih]
  | nil => exact .inl rfl
  | cons _ _ ih => exact .inr ih
  | closed hl | unclosed hl => exact hl

theorem pos (h : Derives (.expr p e) before n after) : 0 < n := by
  generalize hf : Form.expr p e = f at h
  induction h generalizing p e with
  | ident | number | truth | falsity => omega
  | grouped | conditional | conditionalElse | unary | binary => omega
  | looser _ _ ih => exact ih rfl
  | _ => exact absurd hf nofun

/-- An expression of a stratum is one of every looser stratum, and of its own. -/
theorem loosen {q : Power} (h : Derives (.expr q e) before n after) (hp : p.rank ≤ q.rank) :
    Derives (.expr p e) before n after := by
  rcases Nat.lt_or_eq_of_le hp with hlt | heq
  · exact .looser hlt h
  · exact Power.eq_of_rank_eq heq ▸ h

/-- A derivation uses up tokens, that of a list of statements only if the list is not empty. -/
theorem uses (h : Derives f before n after) :
    ∃ us, before = us ++ after ∧ ((∀ ss, f ≠ .stmts ss) → us ≠ []) := by
  induction h with
  | @ident t | @number t | @truth t | @falsity t => exact ⟨[t], rfl, nofun⟩
  | @grouped l r _ _ _ _ _ _ _ ih =>
    obtain ⟨us, rfl, -⟩ := ih
    exact ⟨l :: us ++ [r], by simp, nofun⟩
  | @conditional w l r _ _ _ _ _ _ _ _ _ _ _ _ ihc ihb =>
    obtain ⟨us, rfl, -⟩ := ihc
    obtain ⟨vs, rfl, -⟩ := ihb
    exact ⟨w :: l :: us ++ r :: vs, by simp, nofun⟩
  | @conditionalElse w l r s _ _ _ _ _ _ _ _ _ _ _ _ _ _ _ _ _ ihc ihb iha =>
    obtain ⟨us, rfl, -⟩ := ihc
    obtain ⟨vs, rfl, -⟩ := ihb
    obtain ⟨ws, rfl, -⟩ := iha
    exact ⟨w :: l :: us ++ r :: vs ++ s :: ws, by simp, nofun⟩
  | @unary op _ _ _ _ _ _ ih =>
    obtain ⟨us, rfl, -⟩ := ih
    exact ⟨op :: us, rfl, nofun⟩
  | @binary op _ _ _ _ _ _ _ _ _ _ _ ihl ihr =>
    obtain ⟨us, rfl, -⟩ := ihl
    obtain ⟨vs, rfl, -⟩ := ihr
    exact ⟨us ++ op :: vs, by simp, by simp⟩
  | looser _ _ ih =>
    obtain ⟨us, rfl, hus⟩ := ih
    exact ⟨us, rfl, fun _ => hus nofun⟩
  | @binding w x a _ _ _ _ _ _ _ _ _ he ih =>
    obtain ⟨us, rfl, -⟩ := ih
    obtain ⟨vs, rfl⟩ := he.suffix
    exact ⟨w :: x :: a :: us ++ vs, by simp, nofun⟩
  | @result w _ _ _ _ _ _ _ he ih =>
    obtain ⟨us, rfl, -⟩ := ih
    obtain ⟨vs, rfl⟩ := he.suffix
    exact ⟨w :: us ++ vs, by simp, nofun⟩
  | expression _ he ih =>
    obtain ⟨us, h, hus⟩ := ih
    obtain ⟨vs, rfl⟩ := he.suffix
    exact ⟨us ++ vs, by simpa using h, fun _ => by simp [hus nofun]⟩
  | nil => exact ⟨[], rfl, fun h => absurd rfl (h _)⟩
  | cons _ _ ihst ihss =>
    obtain ⟨us, rfl, -⟩ := ihst
    obtain ⟨vs, rfl, -⟩ := ihss
    exact ⟨us ++ vs, by simp, fun h => absurd rfl (h _)⟩
  | @closed l r _ _ _ _ _ _ _ ih =>
    obtain ⟨us, rfl, -⟩ := ih
    exact ⟨l :: us ++ [r], by simp, nofun⟩
  | @unclosed l _ before => exact ⟨l :: before, by simp, nofun⟩

theorem suffix (h : Derives f before n after) : after <:+ before := by
  obtain ⟨us, rfl, -⟩ := h.uses
  exact List.suffix_append us after

theorem length_lt (h : Derives f before n after) (hf : ∀ ss, f ≠ .stmts ss) :
    after.length < before.length := by
  obtain ⟨us, rfl, hus⟩ := h.uses
  have := List.length_pos_iff.2 (hus hf)
  rw [List.length_append]
  omega

theorem length_expr_lt (h : Derives (.expr p e) before n after) : after.length < before.length :=
  h.length_lt nofun

/-- An expression at the end of a statement is a statement with the expression's first token. -/
theorem exists_expression {v : Expr} {mid : List Token}
    (hv : Derives (.expr .lowest v) before n mid) (he : Ends mid after) :
    ∃ t, Derives (.stmt (.expression t v)) before n after := by
  cases before with
  | nil => exact absurd hv.length_expr_lt (Nat.not_lt_zero _)
  | cons t before => exact ⟨t, .expression hv he⟩

theorem length_stmt_lt (h : Derives (.stmt st) before n after) : after.length < before.length :=
  h.length_lt nofun

end Derives

end ExprLang
