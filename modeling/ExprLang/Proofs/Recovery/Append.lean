import ExprLang.Proofs.Grammar.Accepts
import ExprLang.Proofs.Recovery.InStep
import ExprLang.Proofs.Recovery.Reports
import ExprLang.Proofs.Recovery.Seam
import ExprLang.Proofs.Scanning.Concat

/-!
# Two sources one behind the other

Behind a semicolon a parse begins anew: what is read of two sources together, and what is reported,
is what is read of each of them and reported of each of them, the second one moved by the length of
the first (`parse_append`).  Up to the seam the parse is that of the first source
(`run_statements_meets`), and from the seam on it is in step with that of the second source
(`run_sourceStatements_corresponds`).
-/

namespace ExprLang

open Grammar

/-! ### From the seam on -/

theorem Diagnostic.eq_shift {d e : Diagnostic} {t : Token} {n : Nat} (hcause : d.cause = e.cause)
    (hd : d.position = (t.shift n).position) (he : e.position = t.position) : d = e.shift n := by
  obtain ⟨cause, position⟩ := d
  rw [shift, he, ← hcause]
  exact congrArg (mk cause) hd

/-- The statements from corresponding tokens on are the same ones further on, and so are the reports
that are made. -/
theorem run_sourceStatements_corresponds {n : Nat} {s t : Session}
    (h : s.cursor.Corresponds t.cursor id (Token.shift n)) (ht : t.errors = #[]) :
    let r := sourceStatements.run s
    let q := sourceStatements.run t
    r.1 = q.1.map (Stmt.mapTokens (Token.shift n)) ∧
      r.2.errors.toList = s.errors.toList ++ q.2.errors.toList.map (Diagnostic.shift n) := by
  obtain ⟨hss, rs, hrs, hs, hq⟩ := run_sourceStatements_inStep h
  rw [← Stmt.mapTokensAll_eq, Stmt.mapTokensAll_id] at hss
  refine ⟨hss, ?_⟩
  simp only [hs, hq, ht, List.nil_append, List.map_map]
  congr 1
  refine List.map_congr_left fun p hp => ?_
  obtain ⟨hcause, k, hpos, hpos'⟩ := hrs p hp
  have hview : s.cursor.token k = (t.cursor.token k).shift n := h.view k
  exact Diagnostic.eq_shift hcause (hview ▸ hpos) hpos'

/-! ### The seam -/

section

variable {s₁ s₂ : String} {file : Option String}
  (hsize : (s₁ ++ s₂).utf8ByteSize ≤ maxOffset)
  (hlast : (Scanner.ofSource s₁ file).upcoming.getLast?.map Token.kind = some .semicolon)

include hsize hlast

theorem meets_ofSource : (Session.ofSource (s₁ ++ s₂) file).cursor.Meets
    (Session.ofSource s₁ file).cursor (Scanner.ofSource s₁ file).upcoming.length where
  same k hk := by
    rw [token_ofSource, token_ofSource,
      tokenStream_append_of_lt hsize (parts_of_semicolon hlast s₂) hk]
  eof k := by rw [token_ofSource, kind_tokenStream_eq_eof_iff]
  semicolon k hk := by
    rw [List.getLast?_eq_getElem?, ← hk, Nat.add_sub_cancel] at hlast
    obtain ⟨t, ht, hkind⟩ := Option.map_eq_some_iff.1 hlast
    rw [token_ofSource, tokenStream_eq, ht, Option.getD_some, hkind]

theorem corresponds_ofSource : ((Session.ofSource (s₁ ++ s₂) file).cursor.after
    (Scanner.ofSource s₁ file).upcoming.length).Corresponds (Session.ofSource s₂ file).cursor id
      (Token.shift s₁.utf8ByteSize) := by
  have htoken : ∀ k, ((Session.ofSource (s₁ ++ s₂) file).cursor.after
      (Scanner.ofSource s₁ file).upcoming.length).token k =
      ((Session.ofSource s₂ file).cursor.token k).shift s₁.utf8ByteSize := by
    intro k
    rw [Cursor.token_after, token_ofSource, token_ofSource,
      tokenStream_append_add hsize (parts_of_semicolon hlast s₂)]
  exact ⟨htoken, fun k => by rw [htoken k]; rfl, fun k => by rw [htoken k]; rfl⟩

end

/-- The tokens of a source before the end token, if as many blocks are closed as are opened and a
semicolon ends it. -/
theorem sealed_of_tokenize {source : String} {file : Option String}
    (hbraces : (tokenize source file).countP (·.kind = .lbrace) =
      (tokenize source file).countP (·.kind = .rbrace))
    (hlast : (Scanner.ofSource source file).upcoming.getLast?.map Token.kind = some .semicolon) :
    Sealed (Scanner.ofSource source file).upcoming := by
  refine ⟨?_, fun vs u hu => ?_⟩
  · have ho := opened_eq (tokenize source file)
    rw [hbraces, Int.sub_self, tokenize, Scanner.tokens_eq_upcoming, opened_append] at ho
    have hend : opened [(Scanner.ofSource source file).endToken] = 0 := rfl
    omega
  · rw [hu, List.getLast?_concat] at hlast
    exact Option.some.inj hlast

/-- **A semicolon between statements is where a parse can begin anew.**  Let the last token of a
source be a semicolon, and let the source have no opening brace, whatever else is wrong with it, or
be read without a report and close as many braces as it opens.  Then a source behind it is read as if
it stood alone: there are the statements and the reports of the first source, and then those of the
second one, as far further on as the first one is long. -/
theorem parse_append (s₁ s₂ : String) (file : Option String)
    (hsize : (s₁ ++ s₂).utf8ByteSize ≤ maxOffset)
    (hlast : ((tokenize s₁ file).filter (·.kind ≠ .eof)).getLast?.map Token.kind = some .semicolon)
    (hbraces : (∀ t ∈ tokenize s₁ file, t.kind ≠ .lbrace) ∨
      (parse s₁ file).2 = #[] ∧ (tokenize s₁ file).countP (·.kind = .lbrace) =
        (tokenize s₁ file).countP (·.kind = .rbrace)) :
    (parse (s₁ ++ s₂) file).1.statements = (parse s₁ file).1.statements ++
        (parse s₂ file).1.statements.map (Stmt.mapTokens (Token.shift s₁.utf8ByteSize)) ∧
      (parse (s₁ ++ s₂) file).2.toList = (parse s₁ file).2.toList ++
        (parse s₂ file).2.toList.map (Diagnostic.shift s₁.utf8ByteSize) := by
  have hon := on_tokenize s₁ file
  rw [tokenize, Scanner.filter_tokens] at hlast hon
  have hmeets := meets_ofSource hsize hlast
  have hrounds : ∀ r ∈ rounds (expressionOn maxLevels maxLevels) (· == .eof) eof_closes_program
      (Session.ofSource s₁ file), r.finish.cursor.current.kind ≠ .eof := by
    rcases hbraces with hnone | ⟨hclean, hcount⟩
    · refine finish_of_no_lbrace (i := 0) (confines_expressionOn _ _) hmeets (fun k _ => ?_) rfl
      rw [token_ofSource]
      exact hnone _ (tokenStream_mem s₁ file k)
    · have hyields : sourceStatements.Yields (Session.ofSource s₁ file) _ _ :=
        ⟨rfl, (congrArg Prod.snd (parse_eq_run s₁ file)).symm.trans hclean⟩
      exact (readsExpr_expressionOn maxLevels maxLevels).finish_of_opened hyields hon
        (sealed_of_tokenize hcount hlast)
  have hrun : sourceStatements.run (Session.ofSource (s₁ ++ s₂) file) =
      let r := sourceStatements.run (Session.ofSource s₁ file)
      let q := sourceStatements.run (r.2.moveTo ((Session.ofSource (s₁ ++ s₂) file).cursor.after
        (Scanner.ofSource s₁ file).upcoming.length))
      (r.1 ++ q.1, q.2) :=
    run_statements_meets (i := 0) (confines_expressionOn _ _) (fun k hk => beq_iff_eq.1 hk) hmeets
      rfl (Nat.zero_le _) hrounds
  rw [parse_eq_run, parse_eq_run, parse_eq_run, hrun]
  generalize sourceStatements.run (Session.ofSource s₁ file) = r
  obtain ⟨hss, hds⟩ := run_sourceStatements_corresponds
    (s := r.2.moveTo ((Session.ofSource (s₁ ++ s₂) file).cursor.after
      (Scanner.ofSource s₁ file).upcoming.length))
    (t := Session.ofSource s₂ file) (corresponds_ofSource hsize hlast) rfl
  exact ⟨congrArg (r.1 ++ ·) hss, hds⟩

/-- Behind a block that is closed, a comma is objected to where it stands. -/
theorem parse_append_block :
    ("if (x) \x7b y \x7d;" ++ ", 1").utf8ByteSize ≤ maxOffset ∧
      (parse ("if (x) \x7b y \x7d;" ++ ", 1") none).1.statements.length = 2 ∧
      (parse ("if (x) \x7b y \x7d;" ++ ", 1") none).2.toList =
        [⟨.noOperand .comma, ⟨13, "shell"⟩⟩] := by
  have hsize : ("if (x) \x7b y \x7d;" ++ ", 1").utf8ByteSize ≤ maxOffset := by decide
  have h := parse_append "if (x) \x7b y \x7d;" ", 1" none hsize (by decide +kernel)
    (.inr ⟨by decide +kernel, by decide +kernel⟩)
  have hfirst : (parse "if (x) \x7b y \x7d;" none).1.statements.length = 1 := by decide +kernel
  have hclean : (parse "if (x) \x7b y \x7d;" none).2.toList = [] := by decide +kernel
  have hsecond : (parse ", 1" none).1.statements.length = 1 := by decide +kernel
  have hcomma : (parse ", 1" none).2.toList = [⟨.noOperand .comma, ⟨0, "shell"⟩⟩] := by
    decide +kernel
  refine ⟨hsize, ?_, ?_⟩
  · rw [h.1, List.length_append, List.length_map, hfirst, hsecond]
  · rw [h.2, hclean, hcomma]
    decide

end ExprLang
