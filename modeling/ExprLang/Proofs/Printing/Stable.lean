import ExprLang.Proofs.Printing.Reread

/-!
# The canonical text of an expression is stable up to the bound

An expression without `if` that was read from a source is coherent (`coherent_of_parse_eq`), so that
it is spelt, parsed and spelt again as the same text, provided that it does not need too many
levels.  The proviso is not idle: the canonical text puts parentheses around every operation and may
nest deeper than the source.  A long `x + x + … + x` nests two levels deep (`derives_sumText`), but
its canonical text is refused.
-/

namespace ExprLang

open Lexeme

/-- What is read from a source is derived from its tokens. -/
theorem exists_derives_of_parse_eq {source : String} {file : Option String} {p : Program}
    (h : parse source file = (p, #[])) :
    ∃ ts n, (∀ t ∈ ts, t.IsLexeme) ∧ Derives (.stmts p.statements) ts n [] := by
  obtain ⟨n, -, hd⟩ := (yields_statements_iff_derives (on_tokenize source file)).1
    ((parseWithin_eq_iff_yields source file p).1 h)
  refine ⟨_, n, ?_, hd⟩
  intro t ht
  obtain ⟨hm, hk⟩ := List.mem_filter.1 ht
  exact isLexeme_of_mem_tokenize hm (of_decide_eq_true hk)

/-- An expression that makes up a source, and has no `if` in it, is a coherent program. -/
theorem coherent_of_parse_eq {source : String} {file : Option String} {t : Token} {e : Expr}
    (h : parse source file = (⟨[.expression t e]⟩, #[])) (he : e.IfFree) :
    Program.Coherent ⟨[.expression t e]⟩ := by
  obtain ⟨ts, n, hts, hd⟩ := exists_derives_of_parse_eq h
  cases hd with
  | cons hst _ =>
    cases hst with
    | expression hv _ =>
      refine ⟨fun st hst => ?_, fun t v hm => ?_⟩
      · rw [List.mem_singleton] at hst
        subst hst
        exact hv.coherent hts he
      · exact absurd hm List.not_mem_nil

theorem errors_parse_text_expression {t : Token} {e : Expr}
    (h : Program.Coherent ⟨[.expression t e]⟩) (file : Option String) :
    (parse (Program.text ⟨[.expression t e]⟩) file).2 = #[] ↔ e.need ≤ maxLevels := by
  rw [h.errors_parse_text]
  exact List.forall_mem_singleton

/-- The canonical text of an expression that was read is read without a diagnostic exactly if the
expression needs at most `maxLevels` levels, and what is read then has the same canonical text. -/
theorem reparse_text_iff (source : String) (file file' : Option String) (t : Token) (e : Expr)
    (h : parse source file = (⟨[.expression t e]⟩, #[])) (he : e.IfFree) :
    ((parse (Program.text ⟨[.expression t e]⟩) file').2 = #[] ↔ e.need ≤ maxLevels) ∧
      ((parse (Program.text ⟨[.expression t e]⟩) file').2 = #[] →
        (parse (Program.text ⟨[.expression t e]⟩) file').1.text =
          Program.text ⟨[.expression t e]⟩) := by
  have hp := coherent_of_parse_eq h he
  refine ⟨errors_parse_text_expression hp file', fun hc => ?_⟩
  rw [← Program.text_shape, hp.shape_parse_text hc, Program.text_shape]

/-- `!x`, as it is read. -/
def notX : Program :=
  ⟨[.expression ⟨.bang, "!", ⟨0, 1, "shell"⟩⟩
    (.unary ⟨.bang, "!", ⟨0, 1, "shell"⟩⟩ "!" (.ident ⟨⟨.ident, "x", ⟨1, 2, "shell"⟩⟩, "x"⟩))]⟩

theorem reparse_text_notX : parse "!x" none = (notX, #[]) ∧
    (parse notX.text none).2 = #[] ∧ (parse notX.text none).1.text = notX.text := by
  have hp : parse "!x" none = (notX, #[]) := by
    with_unfolding_all rfl
  have h := reparse_text_iff "!x" none none _ _ hp trivial
  have hclean := h.1.2 (by decide)
  exact ⟨hp, hclean, h.2 hclean⟩

/-! ### Long sums -/

/-- `x` and `n` times `+ x`. -/
def sumText : Nat → String
  | 0 => "x"
  | n + 1 => sumText n ++ " + x"

/-- A sum groups to the left: it nests at most two levels deep, but its canonical text takes a level
for each `+`. -/
theorem derives_sumText (n : Nat) {s : Scanner} {tail : List Char}
    (hs : s.rest = (sumText n).toList ++ tail) (ht : Ending tail) :
    ∃ (e : Expr) (s' : Scanner) (m : Nat), s'.rest = tail ∧ e.IfFree ∧ n < e.need ∧ m ≤ 2 ∧
      Derives (.expr .sum e) s.upcoming m s'.upcoming := by
  have hx : ∀ tail, Ending tail → Spells .ident ['x'] tail :=
    fun tail ht => spells_word (by decide) (List.all_eq_true.1 (by decide)) ht.not_isLetter
  induction n generalizing s tail with
  | zero =>
    obtain ⟨t, s', hu, hr, hk, -⟩ := Scanner.upcoming_of_spells (hx tail ht) blanks_nil hs
    refine ⟨.ident ⟨t, t.literal⟩, s', 1, hr, trivial, Nat.one_pos, by decide, ?_⟩
    rw [hu]
    exact .looser (by decide) (.ident hk)
  | succ n ih =>
    have htext : (sumText (n + 1)).toList ++ tail =
        (sumText n).toList ++ ([' '] ++ (['+'] ++ ([' '] ++ (['x'] ++ tail)))) := by
      simp [sumText]
    rw [htext] at hs
    obtain ⟨e, s₁, m, hr₁, hfree, hneed, hm, hd⟩ := ih hs (ending_blank _)
    obtain ⟨op, s₂, hu₂, hr₂, hop, -⟩ := Scanner.upcoming_of_spells (k := .plus)
      (spells_mark rfl (by simp)) blanks_one hr₁
    obtain ⟨t, s₃, hu₃, hr₃, hk, -⟩ := Scanner.upcoming_of_spells (hx tail ht) blanks_one hr₂
    have hright : Derives (.expr .product (.ident ⟨t, t.literal⟩)) s₂.upcoming 1 s₃.upcoming := by
      rw [hu₃]
      exact .looser (by decide) (.ident hk)
    rw [hu₂] at hd
    refine ⟨.binary op e op.literal (.ident ⟨t, t.literal⟩), s₃, max m (1 + 1), hr₃,
      ⟨hfree, trivial⟩, ?_, by omega, .binary (hop ▸ .plus) hd hright⟩
    simp only [Expr.need]
    omega

theorem parse_sumText (n : Nat) (file : Option String) :
    ∃ t e, parse (sumText n) file = (⟨[.expression t e]⟩, #[]) ∧ e.IfFree ∧ n < e.need := by
  have hs : (Scanner.ofSource (sumText n) file).rest = (sumText n).toList ++ [] :=
    (List.append_nil _).symm
  obtain ⟨e, s', m, hr, hfree, hneed, hm, hd⟩ := derives_sumText n hs ending_nil
  rw [Scanner.upcoming_of_rest_nil hr, ← Scanner.filter_tokens] at hd
  have hv : Derives (.expr .lowest e) _ m [] := .looser (by decide) hd
  obtain ⟨t, hst⟩ := hv.exists_expression (.bare (by decide))
  refine ⟨t, e, (hst.cons .nil).parse_eq_iff ⟨[.expression t e]⟩ |>.2 ⟨?_, rfl⟩, hfree, hneed⟩
  have h2 : 2 ≤ maxLevels := by decide
  omega

/-- `x` and 128 times `+ x` is read without a diagnostic, and its canonical text is not. -/
theorem errors_reparse_sumText : ∃ t e, parse (sumText 128) none = (⟨[.expression t e]⟩, #[]) ∧
    e.IfFree ∧ (parse (Program.text ⟨[.expression t e]⟩) none).2 ≠ #[] := by
  obtain ⟨t, e, h, hfree, hneed⟩ := parse_sumText 128 none
  refine ⟨t, e, h, hfree, fun hc => ?_⟩
  have hle := (errors_parse_text_expression (coherent_of_parse_eq h hfree) none).1 hc
  have hmax : maxLevels = 128 := rfl
  omega

end ExprLang
