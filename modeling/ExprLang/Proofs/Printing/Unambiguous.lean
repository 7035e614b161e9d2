import ExprLang.Proofs.Printing.Reread

/-!
# Canonical texts are unambiguous

The canonical text of a coherent program is derived in one shape only: read as tokens it has a
derivation of the program's shape (`rereads_statements`), and no other (`Derives.unique`).  So two
coherent programs with one text have one shape (`Program.Coherent.shape_eq`), however deep they
nest; the bound on levels is the parser's, not the grammar's.  An expression is a program of one
statement.
-/

namespace ExprLang

/-- Coherent programs that are spelt alike have the same shape. -/
theorem Program.Coherent.shape_eq {p q : Program} (hp : p.Coherent) (hq : q.Coherent)
    (h : p.text = q.text) : p.shape = q.shape := by
  let s := Scanner.ofSource p.text none
  have hs : s.rest = (String.join (p.statements.map Stmt.text)).toList := rfl
  have hs' : s.rest = (String.join (q.statements.map Stmt.text)).toList :=
    congrArg String.toList h
  obtain ⟨ss, _, hss, -, hd, -⟩ := rereads_statements hp.statements hp.operations hs
  obtain ⟨ss', _, hss', -, hd', -⟩ := rereads_statements hq.statements hq.operations hs'
  have heq : ss = ss' := (hd.unique (Cursor.on_ofScanner s) hd').1
  unfold Program.shape
  rw [← hss, ← hss', heq]

/-- An expression is a program of one statement, whatever token that is given. -/
theorem Expr.Coherent.program {e : Expr} (h : e.Coherent) (t : Token) :
    Program.Coherent ⟨[.expression t e]⟩ where
  statements := List.forall_mem_singleton.2 h
  operations := fun _ _ hm => absurd hm List.not_mem_nil

def Stmt.IsIntroduced : Stmt → Prop
  | .binding .. | .result .. => True
  | _ => False

/-- Coherent `let`s and `return`s are a program in any order. -/
theorem coherent_of_introduced {ss : List Stmt} (hc : ∀ st ∈ ss, st.Coherent)
    (hi : ∀ st ∈ ss, st.IsIntroduced) : Program.Coherent ⟨ss⟩ where
  statements := hc
  operations := fun _ _ hm => (hi _ (List.dropLast_subset ss hm)).elim

/-- **A canonical text has one tree.**  Coherent expressions that are spelt alike are the same up to
the places of their tokens, and so are lists of coherent `let`s and `return`s. -/
theorem shape_eq_of_text_eq :
    (∀ e e' : Expr, e.Coherent → e'.Coherent → e.text = e'.text → e.shape = e'.shape) ∧
      ∀ ss ss' : List Stmt, (∀ st ∈ ss, st.Coherent ∧ st.IsIntroduced) →
        (∀ st ∈ ss', st.Coherent ∧ st.IsIntroduced) →
        String.join (ss.map Stmt.text) = String.join (ss'.map Stmt.text) →
        ss.map Stmt.shape = ss'.map Stmt.shape := by
  constructor
  · intro e e' he he' h
    have htext : Program.text ⟨[.expression default e]⟩ = Program.text ⟨[.expression default e']⟩ :=
      congrArg (fun text => String.join [text]) h
    have hshape := (he.program default).shape_eq (he'.program default) htext
    have hstmt := (List.cons.inj (Program.mk.inj hshape)).1
    exact (Stmt.expression.inj hstmt).2
  · intro ss ss' hss hss' h
    have hp := coherent_of_introduced (fun st hst => (hss st hst).1) fun st hst => (hss st hst).2
    have hq := coherent_of_introduced (fun st hst => (hss' st hst).1) fun st hst => (hss' st hst).2
    exact Program.mk.inj (hp.shape_eq hq h)

/-- `(a - (-1))`, with its tokens at some place. -/
def minusMinus (span : Span) : Expr :=
  .binary ⟨.minus, "-", span⟩ (.ident ⟨⟨.ident, "a", span⟩, "a"⟩) "-"
    (.unary ⟨.minus, "-", span⟩ "-" (.number ⟨.int, "1", span⟩ 1))

theorem coherent_minusMinus (span : Span) : (minusMinus span).Coherent := by
  have hname : "a".toList ≠ [] ∧ "a".toList.all Lexeme.isLetter ∧
      Kind.reserved.lookup "a" = none := by decide
  have ha : Ident.Coherent ⟨⟨.ident, "a", span⟩, "a"⟩ :=
    ⟨rfl, rfl, hname.1, List.all_eq_true.1 hname.2.1, hname.2.2⟩
  have hone : Numeral "1" 1 := numeral_iff.2 (by decide)
  exact ⟨⟨.minus, .sum, .minus, rfl, rfl⟩, rfl, ha, .inr ⟨rfl, rfl⟩, rfl, rfl, 1, rfl, hone⟩

/-- The same expression, and the same `return`, from two places. -/
theorem shape_eq_minusMinus :
    (minusMinus default).Coherent ∧ (minusMinus ⟨3, 4, "f"⟩).Coherent ∧
      (minusMinus default).text = "(a - (-1))" ∧ (minusMinus ⟨3, 4, "f"⟩).text = "(a - (-1))" ∧
      (minusMinus default).shape = (minusMinus ⟨3, 4, "f"⟩).shape ∧
      [Stmt.result ⟨.returnWord, "return", default⟩ (minusMinus default)].map Stmt.shape =
        [Stmt.result ⟨.returnWord, "return", ⟨0, 1, "f"⟩⟩ (minusMinus ⟨3, 4, "f"⟩)].map
          Stmt.shape := by
  have hc := coherent_minusMinus
  have hreturn : ∀ span span',
      ∀ st ∈ [Stmt.result ⟨.returnWord, "return", span⟩ (minusMinus span')],
      st.Coherent ∧ st.IsIntroduced := by
    intro span span'
    rw [List.forall_mem_singleton]
    exact ⟨⟨⟨rfl, rfl⟩, hc span'⟩, trivial⟩
  exact ⟨hc _, hc _, by decide, by decide, shape_eq_of_text_eq.1 _ _ (hc _) (hc _) (by decide),
    shape_eq_of_text_eq.2 _ _ (hreturn _ _) (hreturn _ _) (by decide)⟩

end ExprLang
