import ExprLang.Proofs.Grammar.Accepts
import ExprLang.Proofs.Printing.Coherent

/-!
# Canonical texts are read back

The canonical text of a coherent expression has a derivation of the same shape, which nests
`Expr.need` levels deep (`Expr.Coherent.rereads`).  Statements may stand next to each other without
a blank, since one that is not the last ends with a semicolon or a parenthesis and none begins with
a `-` (`rereads_statements`).  So parsing undoes printing exactly if no statement needs more than
`maxLevels` levels.
-/

namespace ExprLang

open Lexeme

/-! ### Expressions -/

/-- In front of any text that an expression may be followed by, its canonical text has a derivation
of the same shape. -/
def Expr.Rereads (e : Expr) : Prop :=
  ∀ (s : Scanner) (blanks tail : List Char), (∀ b ∈ blanks, isBlank b) →
    s.rest = blanks ++ (e.text.toList ++ tail) → e.IsOperation ∨ Ending tail →
    ∃ (e' : Expr) (s' : Scanner), s'.rest = tail ∧ e'.shape = e.shape ∧
      headKind s.upcoming ≠ .minus ∧ Derives (.expr .call e') s.upcoming e.need s'.upcoming

section Leaves

variable {t : Token}

/-- An expression of one token. -/
theorem rereads_leaf {e : Expr} {k : Kind} {l : List Char} (hl : e.text.toList = l)
    (he : ¬ e.IsOperation) (hk : k ≠ .minus) (hs : ∀ tail, Ending tail → Spells k l tail)
    (hd : ∀ t after, t.kind = k → t.literal = String.ofList l →
      ∃ e' : Expr, e'.shape = e.shape ∧ Derives (.expr .call e') (t :: after) e.need after) :
    e.Rereads := by
  intro s blanks tail hb hr ho
  have ht := ho.resolve_left he
  rw [hl] at hr
  obtain ⟨t, s', hu, hr', hkt, hlt⟩ := Scanner.upcoming_of_spells (hs tail ht) hb hr
  obtain ⟨e', hsh, hd⟩ := hd t s'.upcoming hkt hlt
  refine ⟨e', s', hr', hsh, ?_, ?_⟩
  · rw [hu, headKind_cons, hkt]
    exact hk
  · rw [hu]
    exact hd

theorem Ident.Coherent.spells {x : Ident} (h : x.Coherent) {tail : List Char} (ht : Ending tail) :
    Spells .ident x.name.toList tail := by
  have hw := spells_word h.nonempty h.letters ht.not_isLetter
  rwa [String.ofList_toList, Kind.ofWord_eq_ident.2 h.free] at hw

theorem rereads_ident {x : Ident} (h : x.Coherent) : (Expr.ident x).Rereads := by
  refine rereads_leaf rfl id (by decide) (fun _ ht => h.spells ht) fun u after hk hl => ?_
  rw [String.ofList_toList] at hl
  refine ⟨_, ?_, .ident hk⟩
  simp only [Expr.shape]
  rw [Token.shape_eq (hk.trans h.kind.symm) (hl.trans h.literal.symm), hl]
  rfl

theorem rereads_number {n : Nat} (hk : t.kind = .int) (hn : Numeral t.literal n) :
    (Expr.number t n).Rereads := by
  refine rereads_leaf rfl id (by decide) (fun tail ht => spells_number hn.1 hn.2.1 ht.not_isDigit)
    fun u after hku hl => ?_
  rw [String.ofList_toList] at hl
  refine ⟨.number u n, ?_, .number hku (hl ▸ hn)⟩
  simp only [Expr.shape]
  rw [Token.shape_eq (hku.trans hk.symm) hl]

theorem rereads_boolean {v : Bool} (h : t.Spelt (if v then .trueWord else .falseWord)) :
    (Expr.boolean t v).Rereads := by
  have hs : ∀ tail, Ending tail →
      Spells (if v then .trueWord else .falseWord) t.literal.toList tail := by
    intro tail ht
    cases v with
    | true =>
      have hw : "true" = t.literal := Option.some.inj h.2
      rw [← hw]
      exact spells_word (by decide) (List.all_eq_true.1 (by decide)) ht.not_isLetter
    | false =>
      have hw : "false" = t.literal := Option.some.inj h.2
      rw [← hw]
      exact spells_word (by decide) (List.all_eq_true.1 (by decide)) ht.not_isLetter
  refine rereads_leaf rfl id (by cases v <;> decide) hs fun u after hk hl => ?_
  rw [String.ofList_toList] at hl
  refine ⟨.boolean u v, ?_, ?_⟩
  · simp only [Expr.shape]
    rw [Token.shape_eq (hk.trans h.1.symm) hl]
  · cases v with
    | true => exact .truth hk
    | false => exact .falsity hk

end Leaves

/-- No `=` stands at the beginning of a canonical text. -/
theorem Expr.Coherent.head_text {e : Expr} (h : e.Coherent) (tail : List Char) :
    (e.text.toList ++ tail).head? ≠ some '=' := by
  have word : ∀ {l : List Char}, l ≠ [] → '=' ∉ l → (l ++ tail).head? ≠ some '=' := by
    intro l hl hc
    cases l with
    | nil => exact absurd rfl hl
    | cons c cs =>
      intro heq
      have hce : c = '=' := Option.some.inj heq
      exact hc (hce ▸ List.mem_cons_self ..)
  cases e with
  | ident x =>
    exact word h.nonempty fun hc => absurd (h.letters _ hc) (by decide)
  | number t v =>
    obtain ⟨-, n, -, hn⟩ := h
    exact word hn.1 fun hc => absurd (hn.2.1 _ hc) (by decide)
  | boolean t v =>
    cases v with
    | true =>
      have hw : "true" = t.literal := Option.some.inj h.2
      rw [Expr.text, ← hw]
      exact word (by decide) (by decide)
    | false =>
      have hw : "false" = t.literal := Option.some.inj h.2
      rw [Expr.text, ← hw]
      exact word (by decide) (by decide)
  | unary t op r => simp [Expr.text]
  | binary t l op r => simp [Expr.text]
  | conditional => exact h.elim

section Operations

variable {t : Token} {op : String} {l r : Expr}

theorem rereads_unary (ht : t.Spelt .bang ∨ t.Spelt .minus) (hop : op = t.literal)
    (hc : r.Coherent) (h : r.Rereads) : (Expr.unary t op r).Rereads := by
  intro s blanks tail hb hr _
  have htext : (Expr.unary t op r).text.toList ++ tail =
      ['('] ++ ([] ++ (op.toList ++ ([] ++ (r.text.toList ++ ([] ++ ([')'] ++ tail)))))) := by
    simp [Expr.text]
  have hspell : Spells t.kind op.toList ([] ++ (r.text.toList ++ ([] ++ ([')'] ++ tail)))) := by
    have hhead := hc.head_text ([] ++ ([')'] ++ tail))
    rw [hop]
    rcases ht with ⟨hk, hl⟩ | ⟨hk, hl⟩
    · rw [← Option.some.inj hl, hk]
      exact spells_mark rfl fun _ => hhead
    · rw [← Option.some.inj hl, hk]
      exact spells_mark rfl fun _ => hhead
  rw [htext] at hr
  obtain ⟨lp, s₁, hu₁, hr₁, hlp, -⟩ := Scanner.upcoming_of_spells (k := .lparen)
    (spells_mark rfl (by simp)) hb hr
  obtain ⟨u, s₂, hu₂, hr₂, hku, hlu⟩ := Scanner.upcoming_of_spells hspell blanks_nil hr₁
  obtain ⟨r', s₃, hr₃, hsh, -, hd⟩ := h s₂ [] _ blanks_nil hr₂ (.inr (ending_rparen _))
  obtain ⟨rp, s₄, hu₄, hr₄, hrp, -⟩ := Scanner.upcoming_of_spells (k := .rparen)
    (spells_mark rfl (by simp)) blanks_nil hr₃
  rw [String.ofList_toList] at hlu
  have hop' : u.kind = .bang ∨ u.kind = .minus := by
    rw [hku]
    exact ht.imp And.left And.left
  have hg : Derives (.expr .call (.unary u u.literal r')) (lp :: u :: s₂.upcoming)
      (1 + (1 + r.need)) s₄.upcoming := by
    rw [hu₄] at hd
    exact .grouped hlp hrp (.looser (by decide) (.unary hop' (hd.loosen (by decide))))
  refine ⟨.unary u u.literal r', s₄, hr₄, ?_, ?_, ?_⟩
  · simp only [Expr.shape]
    rw [Token.shape_eq hku (hlu.trans hop), hlu, hsh]
  · rw [hu₁, headKind_cons, hlp]
    decide
  · rw [hu₁, hu₂, Expr.need, (by omega : 2 + r.need = 1 + (1 + r.need))]
    exact hg

theorem rereads_binary {k : Kind} {p : Power} (hk : Operator k p) (ht : t.Spelt k)
    (hop : op = t.literal) (hl : l.Rereads) (hr : r.Rereads) : (Expr.binary t l op r).Rereads := by
  intro s blanks tail hb hs _
  have htext : (Expr.binary t l op r).text.toList ++ tail =
      ['('] ++ ([] ++ (l.text.toList ++ ([' '] ++ (op.toList ++ ([' '] ++ (r.text.toList ++
        ([] ++ ([')'] ++ tail)))))))) := by
    simp [Expr.text]
  rw [htext] at hs
  obtain ⟨lp, s₁, hu₁, hr₁, hlp, -⟩ := Scanner.upcoming_of_spells (k := .lparen)
    (spells_mark rfl (by simp)) hb hs
  obtain ⟨l', s₂, hr₂, hshl, -, hdl⟩ :=
    hl s₁ [] _ blanks_nil hr₁ (.inr (ending_blank _))
  obtain ⟨u, s₃, hu₃, hr₃, hku, hlu⟩ := Scanner.upcoming_of_spells
    (hop ▸ spells_of_spelling? ht.2 _) blanks_one hr₂
  obtain ⟨r', s₄, hr₄, hshr, -, hdr⟩ :=
    hr s₃ [' '] _ blanks_one hr₃ (.inr (ending_rparen _))
  obtain ⟨rp, s₅, hu₅, hr₅, hrp, -⟩ := Scanner.upcoming_of_spells (k := .rparen)
    (spells_mark rfl (by simp)) blanks_nil hr₄
  rw [String.ofList_toList] at hlu
  have hg : Derives (.expr .call (.binary u l' u.literal r')) (lp :: s₁.upcoming)
      (1 + max l.need (1 + r.need)) s₅.upcoming := by
    rw [hu₃] at hdl
    rw [hu₅] at hdr
    have hp := hk.rank_lt
    have hlow : Power.lowest < p := hk.rank_pos
    have htight := p.rank_tighter_le
    have hcall : Power.call.rank = 6 := rfl
    have hl' : Derives (.expr p l') s₁.upcoming l.need (u :: s₃.upcoming) :=
      hdl.loosen (by omega)
    have hr' : Derives (.expr p.tighter r') s₃.upcoming r.need (rp :: s₅.upcoming) :=
      hdr.loosen (by omega)
    exact .grouped hlp hrp (.looser hlow (.binary (hku ▸ hk) hl' hr'))
  refine ⟨.binary u l' u.literal r', s₅, hr₅, ?_, ?_, ?_⟩
  · simp only [Expr.shape]
    rw [Token.shape_eq (hku.trans ht.1.symm) (hlu.trans hop), hlu, hshl, hshr]
  · rw [hu₁, headKind_cons, hlp]
    decide
  · rw [hu₁, Expr.need, (by omega : max (1 + l.need) (2 + r.need) = 1 + max l.need (1 + r.need))]
    exact hg

end Operations

/-- The canonical text of a coherent expression has a derivation of the expression's shape, and the
derivation nests as deep as the expression needs. -/
theorem Expr.Coherent.rereads : (e : Expr) → e.Coherent → e.Rereads
  | .ident _, h => rereads_ident h
  | .number _ _, ⟨hk, _, hv, hn⟩ => hv ▸ rereads_number hk hn
  | .boolean _ _, h => rereads_boolean h
  | .unary _ _ r, ⟨ht, hop, hr⟩ => rereads_unary ht hop hr (Expr.Coherent.rereads r hr)
  | .binary _ l _ r, ⟨⟨_, _, hk, ht⟩, hop, hl, hr⟩ =>
    rereads_binary hk ht hop (Expr.Coherent.rereads l hl) (Expr.Coherent.rereads r hr)
  | .conditional .., h => h.elim

/-! ### Statements -/

/-- Up to `tail`, the scanner reads a statement of this shape, which does not begin with a `-`. -/
def Stmt.ReadBy (st : Stmt) (s : Scanner) (tail : List Char) : Prop :=
  ∃ (st' : Stmt) (s' : Scanner), s'.rest = tail ∧ st'.shape = st.shape ∧
    headKind s.upcoming ≠ .minus ∧ Derives (.stmt st') s.upcoming st.need s'.upcoming

section Statements

variable {t : Token} {v : Expr} {s : Scanner} {tail : List Char}

/-- A value and the semicolon behind it. -/
theorem Expr.Coherent.exists_derives_semicolon (hv : v.Coherent)
    (hs : s.rest = [' '] ++ (v.text.toList ++ ([] ++ ([';'] ++ tail)))) :
    ∃ (v' : Expr) (s' : Scanner) (mid : List Token), s'.rest = tail ∧ v'.shape = v.shape ∧
      Derives (.expr .lowest v') s.upcoming v.need mid ∧ Ends mid s'.upcoming := by
  obtain ⟨v', s₁, hr₁, hsh, -, hd⟩ :=
    Expr.Coherent.rereads v hv s [' '] _ blanks_one hs (.inr (ending_semicolon _))
  obtain ⟨e, s₂, hu₂, hr₂, hke, -⟩ := Scanner.upcoming_of_spells (k := .semicolon)
    (spells_mark rfl (by simp)) blanks_nil hr₁
  refine ⟨v', s₂, s₁.upcoming, hr₂, hsh, .looser (by decide) hd, ?_⟩
  rw [hu₂]
  exact .semicolon hke

theorem readBy_binding {x : Ident} (ht : t.Spelt .letWord) (hx : x.Coherent) (hv : v.Coherent)
    (hs : s.rest = (Stmt.binding t x v).text.toList ++ tail) :
    (Stmt.binding t x v).ReadBy s tail := by
  have htext : (Stmt.binding t x v).text.toList ++ tail =
      [] ++ (t.literal.toList ++ ([' '] ++ (x.name.toList ++ ([' '] ++ (['='] ++ ([' '] ++
        (v.text.toList ++ ([] ++ ([';'] ++ tail))))))))) := by
    simp [Stmt.text]
  rw [htext] at hs
  obtain ⟨w, s₁, hu₁, hr₁, hkw, hlw⟩ :=
    Scanner.upcoming_of_spells (spells_of_spelling? ht.2 _) blanks_nil hs
  obtain ⟨y, s₂, hu₂, hr₂, hky, hly⟩ :=
    Scanner.upcoming_of_spells (hx.spells (ending_blank _)) blanks_one hr₁
  obtain ⟨a, s₃, hu₃, hr₃, hka, -⟩ := Scanner.upcoming_of_spells (k := .assign)
    (spells_mark rfl (by simp)) blanks_one hr₂
  obtain ⟨v', s₄, mid, hr₄, hsh, hd, he⟩ := hv.exists_derives_semicolon hr₃
  rw [String.ofList_toList] at hlw hly
  refine ⟨.binding w ⟨y, y.literal⟩ v', s₄, hr₄, ?_, ?_, ?_⟩
  · simp only [Stmt.shape]
    rw [Token.shape_eq (hkw.trans ht.1.symm) hlw, hsh,
      Token.shape_eq (hky.trans hx.kind.symm) (hly.trans hx.literal.symm), hly]
  · rw [hu₁, headKind_cons, hkw]
    decide
  · rw [hu₁, hu₂, hu₃]
    exact .binding hkw hky hka hd he

theorem readBy_result (ht : t.Spelt .returnWord) (hv : v.Coherent)
    (hs : s.rest = (Stmt.result t v).text.toList ++ tail) : (Stmt.result t v).ReadBy s tail := by
  have htext : (Stmt.result t v).text.toList ++ tail =
      [] ++ (t.literal.toList ++ ([' '] ++ (v.text.toList ++ ([] ++ ([';'] ++ tail))))) := by
    simp [Stmt.text]
  rw [htext] at hs
  obtain ⟨w, s₁, hu₁, hr₁, hkw, hlw⟩ :=
    Scanner.upcoming_of_spells (spells_of_spelling? ht.2 _) blanks_nil hs
  obtain ⟨v', s₂, mid, hr₂, hsh, hd, he⟩ := hv.exists_derives_semicolon hr₁
  rw [String.ofList_toList] at hlw
  refine ⟨.result w v', s₂, hr₂, ?_, ?_, ?_⟩
  · simp only [Stmt.shape]
    rw [Token.shape_eq (hkw.trans ht.1.symm) hlw, hsh]
  · rw [hu₁, headKind_cons, hkw]
    decide
  · rw [hu₁]
    exact .result hkw hd he

/-- Behind an expression no `-` may stand, and if it is no operation, nothing that would go on with
its token. -/
theorem readBy_expression (hv : v.Coherent)
    (hs : s.rest = (Stmt.expression t v).text.toList ++ tail) (ho : v.IsOperation ∨ Ending tail)
    (hn : ∀ s' : Scanner, s'.rest = tail → headKind s'.upcoming ≠ .minus) :
    (Stmt.expression t v).ReadBy s tail := by
  obtain ⟨v', s', hr, hsh, hk, hd⟩ := Expr.Coherent.rereads v hv s [] tail blanks_nil hs ho
  have hv' : Derives (.expr .lowest v') s.upcoming v.need s'.upcoming := .looser (by decide) hd
  obtain ⟨u, hst⟩ := hv'.exists_expression (.bare (hn s' hr))
  refine ⟨.expression u v', s', hr, ?_, hk, hst⟩
  simp only [Stmt.shape, hsh]

theorem Stmt.Coherent.readBy {st : Stmt} (h : st.Coherent) (hs : s.rest = st.text.toList ++ tail)
    (ho : ∀ t v, st = .expression t v → v.IsOperation ∨ Ending tail)
    (hn : ∀ s' : Scanner, s'.rest = tail → headKind s'.upcoming ≠ .minus) : st.ReadBy s tail := by
  cases st with
  | binding => exact readBy_binding h.1 h.2.1 h.2.2 hs
  | result => exact readBy_result h.1 h.2 hs
  | expression t v => exact readBy_expression h hs (ho t v rfl) hn
  | block => exact h.elim

end Statements

/-- What the statements of a coherent program are read back as.  The derivation is within a bound
exactly if every statement is. -/
theorem rereads_statements {ss : List Stmt} (hc : ∀ st ∈ ss, st.Coherent)
    (ho : ∀ t v, .expression t v ∈ ss.dropLast → v.IsOperation) {s : Scanner}
    (hs : s.rest = (String.join (ss.map Stmt.text)).toList) :
    ∃ ss' n, ss'.map Stmt.shape = ss.map Stmt.shape ∧ headKind s.upcoming ≠ .minus ∧
      Derives (.stmts ss') s.upcoming n [] ∧ ∀ k, n ≤ k ↔ ∀ st ∈ ss, st.need ≤ k := by
  induction ss generalizing s with
  | nil =>
    have hu := Scanner.upcoming_of_rest_nil hs
    refine ⟨[], 0, rfl, ?_, ?_, by simp⟩
    · rw [hu]
      decide
    · rw [hu]
      exact .nil
  | cons st ss ih =>
    have hc' : ∀ st ∈ ss, st.Coherent := fun u hu => hc u (List.mem_cons_of_mem _ hu)
    have ho' : ∀ t v, .expression t v ∈ ss.dropLast → v.IsOperation := by
      intro t v hm
      refine ho t v ?_
      cases ss with
      | nil => exact absurd hm List.not_mem_nil
      | cons u us => exact List.mem_cons_of_mem _ hm
    have hend : ∀ t v, st = .expression t v →
        v.IsOperation ∨ Ending (String.join (ss.map Stmt.text)).toList := by
      intro t v he
      cases ss with
      | nil => exact .inr ending_nil
      | cons u us =>
        refine .inl (ho t v ?_)
        rw [he]
        exact List.mem_cons_self ..
    have hnext : ∀ s' : Scanner, s'.rest = (String.join (ss.map Stmt.text)).toList →
        headKind s'.upcoming ≠ .minus := by
      intro s' hs'
      obtain ⟨_, _, -, hk, -⟩ := ih hc' ho' hs'
      exact hk
    rw [List.map_cons, String.join_cons, String.toList_append] at hs
    obtain ⟨st', s', hr, hsh, hk, hd⟩ :=
      (hc st (List.mem_cons_self ..)).readBy hs hend hnext
    obtain ⟨ss', n, hshs, -, hds, hn⟩ := ih hc' ho' hr
    refine ⟨st' :: ss', max st.need n, ?_, hk, .cons hd hds, fun k => ?_⟩
    · rw [List.map_cons, hsh, hshs]
      rfl
    · rw [Nat.max_le, hn k, List.forall_mem_cons]

/-! ### Programs -/

namespace Program.Coherent

variable {p : Program}

/-- What the canonical text of a coherent program is read as: its shape, if no statement needs too
many levels. -/
theorem parse_text (h : p.Coherent) (file : Option String) :
    ∃ p' : Program, p'.shape = p.shape ∧ ∀ q, parse p.text file = (q, #[]) ↔
      (∀ st ∈ p.statements, st.need ≤ maxLevels) ∧ q = p' := by
  have hs : (Scanner.ofSource p.text file).rest =
      (String.join (p.statements.map Stmt.text)).toList := rfl
  obtain ⟨ss', n, hsh, -, hd, hn⟩ := rereads_statements h.statements h.operations hs
  rw [← Scanner.filter_tokens] at hd
  refine ⟨⟨ss'⟩, congrArg Program.mk hsh, fun q => ?_⟩
  have hq : q.statements = ss' ↔ q = ⟨ss'⟩ := by
    cases q
    rw [Program.mk.injEq]
  rw [← hn, ← hq]
  exact hd.parse_eq_iff q

theorem errors_parse_text (h : p.Coherent) (file : Option String) :
    (parse p.text file).2 = #[] ↔ ∀ st ∈ p.statements, st.need ≤ maxLevels := by
  obtain ⟨p', -, hp⟩ := h.parse_text file
  constructor
  · intro hc
    exact ((hp _).1 (Prod.ext rfl hc)).1
  · intro hneed
    exact congrArg Prod.snd ((hp p').2 ⟨hneed, rfl⟩)

theorem shape_parse_text (h : p.Coherent) {file : Option String}
    (hc : (parse p.text file).2 = #[]) : (parse p.text file).1.shape = p.shape := by
  obtain ⟨p', hsh, hp⟩ := h.parse_text file
  have heq : (parse p.text file).1 = p' := ((hp _).1 (Prod.ext rfl hc)).2
  rw [heq, hsh]

end Program.Coherent

/-- Parsing undoes printing, up to the places of tokens, exactly if no statement needs more than
`maxLevels` levels. -/
theorem parse_text_iff (p : Program) (h : p.Coherent) (file : Option String) :
    ((parse p.text file).2 = #[] ↔ ∀ st ∈ p.statements, st.need ≤ maxLevels) ∧
      ((parse p.text file).2 = #[] → (parse p.text file).1.shape = p.shape) :=
  ⟨h.errors_parse_text file, h.shape_parse_text⟩

/-- `let x = (-5);` and `(x + true)`, built by hand. -/
def letAndSum : Program :=
  ⟨[.binding ⟨.letWord, "let", default⟩ ⟨⟨.ident, "x", default⟩, "x"⟩
      (.unary ⟨.minus, "-", default⟩ "-" (.number ⟨.int, "5", default⟩ 5)),
    .expression default
      (.binary ⟨.plus, "+", default⟩ (.ident ⟨⟨.ident, "x", default⟩, "x"⟩) "+"
        (.boolean ⟨.trueWord, "true", default⟩ true))]⟩

theorem coherent_letAndSum : letAndSum.Coherent := by
  have hx : Ident.Coherent ⟨⟨.ident, "x", default⟩, "x"⟩ :=
    ⟨rfl, rfl, by decide, List.all_eq_true.1 (by decide), by decide⟩
  refine ⟨?_, ?_⟩
  · intro st hst
    simp only [letAndSum, List.mem_cons, List.not_mem_nil, or_false] at hst
    rcases hst with rfl | rfl
    · exact ⟨⟨rfl, rfl⟩, hx, .inr ⟨rfl, rfl⟩, rfl, rfl, 5, rfl, numeral_iff.2 (by decide)⟩
    · exact ⟨⟨.plus, .sum, .plus, rfl, rfl⟩, rfl, hx, rfl, rfl⟩
  · intro t v h
    simp [letAndSum] at h

theorem parse_text_letAndSum : letAndSum.Coherent ∧ (parse letAndSum.text none).2 = #[] ∧
    (parse letAndSum.text none).1.shape = letAndSum.shape := by
  have h := parse_text_iff letAndSum coherent_letAndSum none
  have hclean := h.1.2 (by decide)
  exact ⟨coherent_letAndSum, hclean, h.2 hclean⟩

end ExprLang
