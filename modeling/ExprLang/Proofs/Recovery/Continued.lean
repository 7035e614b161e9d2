import ExprLang.Proofs.Recovery.Causal
import ExprLang.Proofs.Recovery.Reports
import ExprLang.Proofs.Scanning.Concat

/-!
# A source that goes on

Where blanks and more text follow a source, its tokens stay what they are (`extends_ofSource`).  So
all that was read but the last statement is read again, and what was reported before the end is
reported again (`parse_continued`).  The last statement may go on in the text that follows, and what
was missing at the end may stand there.
-/

namespace ExprLang

open Grammar

/-! ### What an outcome says about statements and reports -/

section

variable {α : Type} {V : α → α → Prop} {stop : Position} {r q : α × Session}

theorem Outcome.continues {r q : List Stmt × Session} (h : Outcome stop Continues r q) :
    Continues r.1 q.1 := by
  cases h with
  | same ss => exact List.dropLast_prefix ss
  | parted hss => exact hss

theorem Outcome.reports (h : Outcome stop V r q) :
    ∃ shared late, r.2.errors.toList = shared ++ late ∧ (∀ d ∈ late, d.position = stop) ∧
      shared <+: q.2.errors.toList := by
  cases h with
  | @same s t a hs =>
    have hshared : s.errors.toList <+: t.errors.toList := hs.errors ▸ List.prefix_rfl
    exact ⟨_, [], (List.append_nil _).symm, fun _ hd => absurd hd List.not_mem_nil, hshared⟩
  | parted _ hp => exact hp.reports

end

/-- Of a list in order, the elements below a bound come first. -/
theorem isPrefix_filter_lt {α : Type} {f : α → Nat} {l : List α}
    (h : l.Pairwise fun x y => f x ≤ f y) (n : Nat) : l.filter (f · < n) <+: l := by
  induction l with
  | nil => exact List.prefix_rfl
  | cons x l ih =>
    obtain ⟨hx, hl⟩ := List.pairwise_cons.1 h
    by_cases hlt : f x < n
    · rw [List.filter_cons, if_pos (decide_eq_true hlt)]
      exact (List.prefix_cons_inj x).2 (ih hl)
    · have hnil : (x :: l).filter (f · < n) = [] := by
        refine List.filter_eq_nil_iff.2 fun y hy hyn => ?_
        have hyn : f y < n := of_decide_eq_true hyn
        rcases List.mem_cons.1 hy with rfl | hy
        · exact hlt hyn
        · have := hx y hy
          omega
      rw [hnil]
      exact List.nil_prefix

/-! ### Whole sources -/

section

variable {s₁ s₂ : String} {file : Option String}
  (hsize : (s₁ ++ s₂).utf8ByteSize ≤ maxOffset) (hparts : Parts s₁ s₂ file)

include hsize

theorem utf8ByteSize_left_le : s₁.utf8ByteSize ≤ maxOffset := by
  rw [String.utf8ByteSize_append] at hsize
  omega

theorem token_ofSource_behind {k : Nat} (hk : (Scanner.ofSource s₁ file).upcoming.length ≤ k) :
    ((Session.ofSource s₁ file).cursor.token k).kind = .eof ∧
      ((Session.ofSource s₁ file).cursor.token k).position = (endToken s₁ file).position := by
  rw [token_ofSource_of_upcoming_le s₁ file hk,
    endToken_ofSource file (utf8ByteSize_left_le hsize)]
  exact ⟨rfl, rfl⟩

include hparts

/-- The tokens of a source are also the first ones where it goes on. -/
theorem extends_ofSource (hne : (Scanner.ofSource s₁ file).upcoming ≠ []) :
    (Session.ofSource s₁ file).cursor.Extends (endToken s₁ file).position
      (Session.ofSource (s₁ ++ s₂) file).cursor := by
  have hpos := List.length_pos_iff.2 hne
  refine Cursor.extends_of_token (n := (Scanner.ofSource s₁ file).upcoming.length - 1)
    (fun k hk => ?_) fun k hk => token_ofSource_behind hsize (by omega)
  rw [token_ofSource, token_ofSource, tokenStream_append_of_lt hsize hparts (by omega)]

theorem outcome_sourceStatements :
    Outcome (endToken s₁ file).position Continues
      (sourceStatements.run (Session.ofSource s₁ file))
      (sourceStatements.run (Session.ofSource (s₁ ++ s₂) file)) := by
  by_cases hne : (Scanner.ofSource s₁ file).upcoming = []
  · refine outcome_statements_of_ended (fun k => token_ofSource_behind hsize ?_) rfl
    rw [hne]
    exact Nat.zero_le k
  · exact (areCausal_expressionOn maxLevels maxLevels).statements
      ⟨extends_ofSource hsize hparts hne, rfl⟩

end

/-- A text begins with a blank if blanks are put in front of it. -/
theorem isBlank_of_head?_append {w : String} (hw : w ≠ "")
    (hb : ∀ b ∈ w.toList, b ∈ [' ', '\t', '\n', '\r']) (s : String) :
    ∀ c ∈ (w ++ s).toList.head?, Lexeme.isBlank c := by
  intro c hc
  obtain ⟨b, bs, hbs⟩ := List.exists_cons_of_ne_nil fun h => hw (String.toList_eq_nil_iff.1 h)
  rw [String.toList_append, hbs] at hc
  cases hc
  have hmem := hb c (hbs ▸ List.mem_cons_self)
  simpa [Lexeme.isBlank, or_assoc] using hmem

/-- **More text does not change what is decided.**  Where blanks and more text follow a source, all
its statements but the last one are read, and all reports about a place before its end are made,
before any others. -/
theorem parse_continued (s₁ w s₂ : String) (file : Option String) (hw : w ≠ "")
    (hb : ∀ b ∈ w.toList, b ∈ [' ', '\t', '\n', '\r'])
    (hsize : (s₁ ++ w ++ s₂).utf8ByteSize ≤ maxOffset) :
    (parse s₁ file).1.statements.dropLast <+: (parse (s₁ ++ w ++ s₂) file).1.statements ∧
      (parse s₁ file).2.toList.filter (·.position.offset < s₁.utf8ByteSize) <+:
        (parse (s₁ ++ w ++ s₂) file).2.toList := by
  rw [String.append_assoc] at hsize ⊢
  have hparts := parts_of_blank (isBlank_of_head?_append hw hb s₂) s₁ file
  have houtcome := outcome_sourceStatements hsize hparts
  refine ⟨?_, ?_⟩
  · rw [parse_eq_run, parse_eq_run]
    exact houtcome.continues
  · obtain ⟨shared, late, hreports, hlate, hshared⟩ := houtcome.reports
    obtain ⟨n, -, ha⟩ := account_parse s₁ file
    have horder := (ha.pairwise_precedes (utf8ByteSize_left_le hsize)).imp Precedes.le
    have hnone : late.filter (·.position.offset < s₁.utf8ByteSize) = [] := by
      refine List.filter_eq_nil_iff.2 fun d hd => ?_
      rw [hlate d hd]
      exact fun hlt => Nat.lt_irrefl _ (of_decide_eq_true hlt)
    rw [parse_eq_run] at horder
    rw [parse_eq_run, parse_eq_run]
    rw [hreports] at horder ⊢
    rw [List.filter_append, hnone, List.append_nil]
    refine (isPrefix_filter_lt ?_ s₁.utf8ByteSize).trans hshared
    exact horder.sublist (List.sublist_append_left shared late)

/-- The comma is objected to also where the binding at the end of the block goes on. -/
theorem parse_continued_binding :
    " " ≠ "" ∧ (∀ b ∈ " ".toList, b ∈ [' ', '\t', '\n', '\r']) ∧
      ("a; if (b) \x7b , let c" ++ " " ++ "= d \x7d").utf8ByteSize ≤ maxOffset ∧
      (parse "a; if (b) \x7b , let c" none).1.statements.length = 2 ∧
      (parse "a; if (b) \x7b , let c" none).2.toList =
        [⟨.noOperand .comma, ⟨12, "shell"⟩⟩, ⟨.unexpected .assign .eof, ⟨19, "shell"⟩⟩] ∧
      (parse "a; if (b) \x7b , let c" none).1.statements.dropLast <+:
        (parse ("a; if (b) \x7b , let c" ++ " " ++ "= d \x7d") none).1.statements ∧
      [⟨.noOperand .comma, ⟨12, "shell"⟩⟩] <+:
        (parse ("a; if (b) \x7b , let c" ++ " " ++ "= d \x7d") none).2.toList := by
  have hw : " " ≠ "" := by decide
  have hlist : " ".toList = [' '] := rfl
  have hb : ∀ b ∈ " ".toList, b ∈ [' ', '\t', '\n', '\r'] := by
    rw [hlist]
    exact List.forall_mem_singleton.2 List.mem_cons_self
  have hsize : ("a; if (b) \x7b , let c" ++ " " ++ "= d \x7d").utf8ByteSize ≤ maxOffset := by decide
  have hreports : (parse "a; if (b) \x7b , let c" none).2.toList =
      [⟨.noOperand .comma, ⟨12, "shell"⟩⟩, ⟨.unexpected .assign .eof, ⟨19, "shell"⟩⟩] := by
    decide +kernel
  have h := parse_continued "a; if (b) \x7b , let c" " " "= d \x7d" none hw hb hsize
  rw [hreports] at h
  exact ⟨hw, hb, hsize, by decide +kernel, hreports, h.1, h.2⟩

end ExprLang
