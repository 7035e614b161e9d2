import ExprLang.Proofs.Grammar.Complete
import ExprLang.Proofs.Grammar.Sound
import ExprLang.Proofs.Parsing.Depth

/-!
# The parser accepts its grammar

A source is read without a diagnostic exactly if its tokens are in the grammar and nest no deeper
than the bound allows; what is read is then the tree that the derivation is of.  Since the parser is
a function, the grammar is unambiguous (`Derives.unique`).
-/

namespace ExprLang

open Grammar

/-- The tokens of a source without the end token are what a parse has before it at the beginning. -/
theorem on_tokenize (source : String) (file : Option String) :
    (Session.ofSource source file).cursor.On
      ((tokenize source file).filter (·.kind ≠ .eof)) := by
  rw [tokenize, Scanner.filter_tokens]
  exact Cursor.on_ofScanner _

variable {limit levels n : Nat} {s : Session} {ts : List Token} {ss : List Stmt}

/-! ### Lists of statements that the end of the source closes -/

/-- Of a list that has a derivation it is known what is read, and on how many levels. -/
theorem Derives.yields_iff (hd : Derives (.stmts ss) ts n []) (hs : s.cursor.On ts)
    (limit levels : Nat) (ss' : List Stmt) :
    (∃ t, (statements (expressionOn limit levels) (· == .eof) rfl).Yields s ss' t) ↔
      n ≤ levels ∧ ss' = ss := by
  have hopen : ∀ k : Kind, k.opensStmt → ¬ (k == .eof) = true := by
    intro k hk
    cases k <;> first | exact absurd hk (by decide) | decide
  have hdet : Determines limit (.stmts ss) ts n [] := determines_of_derives hd
  obtain ⟨d, -, h⟩ := hdet (· == .eof) rfl hopen rfl Kind.separate_eof _ hs
  constructor
  · rintro ⟨t, hy⟩
    obtain ⟨hn, hss, -⟩ := (h levels s ss' t rfl).1 hy
    exact ⟨hn, hss⟩
  · intro hy
    exact ⟨s.moveTo d, (h levels s ss' _ rfl).2 ⟨hy.1, hy.2, rfl⟩⟩

theorem yields_statements_iff_derives (hs : s.cursor.On ts) :
    (∃ t, (statements (expressionOn limit levels) (· == .eof) rfl).Yields s ss t) ↔
      ∃ n ≤ levels, Derives (.stmts ss) ts n [] := by
  constructor
  · rintro ⟨t, h⟩
    obtain ⟨n, after, hn, hd, ht, hk⟩ := (readsExpr_expressionOn limit levels).statements h hs
    have hafter : after = [] := by
      cases after with
      | nil => rfl
      | cons u us => exact absurd (eq_of_beq hk) ht.kind_ne_eof
    subst hafter
    exact ⟨n, hn, hd⟩
  · rintro ⟨n, hn, hd⟩
    exact (hd.yields_iff hs limit levels ss).2 ⟨hn, rfl⟩

/-- The tokens that a cursor has before it are statements in one way only. -/
theorem Derives.unique {ss' : List Stmt} {n' : Nat} {c : Cursor} (hc : c.On ts)
    (h : Derives (.stmts ss) ts n []) (h' : Derives (.stmts ss') ts n' []) :
    ss = ss' ∧ n = n' := by
  have key : ∀ levels ss'', n ≤ levels ∧ ss'' = ss ↔ n' ≤ levels ∧ ss'' = ss' := by
    intro levels ss''
    have hs : (Session.mk c #[] 0).cursor.On ts := hc
    rw [← h.yields_iff hs 0, ← h'.yields_iff hs]
  have hss := ((key (max n n') ss).1 ⟨Nat.le_max_left _ _, rfl⟩).2
  have hn := ((key n ss).1 ⟨Nat.le_refl _, rfl⟩).1
  have hn' := ((key n' ss').2 ⟨Nat.le_refl _, rfl⟩).1
  exact ⟨hss, by omega⟩

/-! ### Sources -/

/-- At the beginning no level is open. -/
theorem parseWithin_eq_iff_yields (source : String) (file : Option String) (p : Program) :
    parseWithin limit source file = (p, #[]) ↔
      ∃ t, (statements (expressionOn limit limit) (· == .eof) rfl).Yields
        (Session.ofSource source file) p.statements t := by
  have hy : ∀ t, (program (expressionWithin limit)).Yields (Session.ofSource source file) p t ↔
      (statements (expressionOn limit limit) (· == .eof) rfl).Yields
        (Session.ofSource source file) p.statements t := by
    intro t
    have hrun : (statements (expressionWithin limit) (· == .eof) rfl).run
        (Session.ofSource source file) =
        (statements (expressionOn limit limit) (· == .eof) rfl).run (Session.ofSource source file) :=
      run_statements_expressionWithin rfl
    rw [yields_program, Walk.Yields, hrun]
    rfl
  rw [← exists_congr hy]
  unfold parseWithin Walk.Yields
  rcases (program (expressionWithin limit)).run (Session.ofSource source file) with ⟨q, t⟩
  constructor
  · intro h
    obtain ⟨rfl, ht⟩ := Prod.mk.inj h
    exact ⟨t, rfl, ht⟩
  · rintro ⟨t', h, ht⟩
    obtain ⟨rfl, rfl⟩ := Prod.mk.inj h
    exact Prod.ext rfl ht

/-- A source whose tokens have a derivation is read without a diagnostic exactly if the derivation
is within the bound, and then as what is derived. -/
theorem Derives.parse_eq_iff {source : String} {file : Option String}
    (h : Derives (.stmts ss) ((tokenize source file).filter (·.kind ≠ .eof)) n []) (p : Program) :
    parse source file = (p, #[]) ↔ n ≤ maxLevels ∧ p.statements = ss :=
  (parseWithin_eq_iff_yields source file p).trans (h.yields_iff (on_tokenize source file) _ _ _)

/-- The parser accepts a source exactly if its tokens are statements of the grammar that nest at
most `maxLevels` deep, and it returns the statements that are derived. -/
theorem parse_eq_iff_derives (source : String) (file : Option String) (p : Program) :
    parse source file = (p, #[]) ↔
      ∃ n ≤ maxLevels,
        Derives (.stmts p.statements) ((tokenize source file).filter (·.kind ≠ .eof)) n [] :=
  (parseWithin_eq_iff_yields source file p).trans
    (yields_statements_iff_derives (on_tokenize source file))

end ExprLang
