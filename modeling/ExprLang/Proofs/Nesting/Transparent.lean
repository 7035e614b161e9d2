import ExprLang.Proofs.Nesting.Unbounded
import ExprLang.Proofs.Parsing.Rounds

/-!
# The limit on the levels does not show until it is reported

Three readers of a source are compared: the one with the limit, the one without, and the one without
that leaves a mark wherever a level more than the limit is opened.  The marks change nothing else
(`agree_marks`).  Up to the first mark the reader with the limit is where the marking one is, and
there it fails; its failure reaches a list of statements that reports it (`agree_limit`).  So what
is reported before the first mark, and what is read in the rounds before it, is the same for all
three (`parse_unbounded`).
-/

namespace ExprLang

open Parse Walk Grammar

def Diagnostic.isOther (d : Diagnostic) : Bool := !d.isExcess

/-- Nothing that is reported so far says that a level is too many. -/
def Session.Quiet (s : Session) : Prop := ∀ d ∈ s.errors.toList, d.isOther

/-- Up to the end of the round no report says that a level is too many. -/
def Round.quiet (r : Round) : Bool := r.next.errors.toList.all Diagnostic.isOther

theorem Round.quiet_iff {r : Round} : r.quiet ↔ r.next.Quiet := List.all_eq_true

theorem Session.Quiet.report {s : Session} {d : Diagnostic} (h : s.Quiet) (hd : d.isOther) :
    (s.report d).Quiet := by
  intro e he
  rw [toList_errors_report, List.mem_append, List.mem_singleton] at he
  rcases he with he | rfl
  · exact h e he
  · exact hd

theorem isOther_of_ne_tooDeep {c : Cause} (h : ∀ n, c ≠ .tooDeep n) (p : Position) :
    (⟨c, p⟩ : Diagnostic).isOther := by
  cases c with
  | tooDeep n => exact absurd rfl (h n)
  | _ => rfl

/-! ### The first report of a kind -/

section First

variable {clean l l' : List Diagnostic} {d : Diagnostic}

/-- The list begins with other reports, and then says that a level is too many. -/
structure FirstExcess (clean : List Diagnostic) (d : Diagnostic) (l : List Diagnostic) : Prop where
  other : ∀ e ∈ clean, e.isOther
  excess : d.isExcess
  isPrefix : clean ++ [d] <+: l

theorem FirstExcess.mono (h : FirstExcess clean d l) (hl : l <+: l') : FirstExcess clean d l' :=
  ⟨h.other, h.excess, h.isPrefix.trans hl⟩

theorem FirstExcess.find? (h : FirstExcess clean d l) :
    l.find? Diagnostic.isExcess = some d := by
  obtain ⟨rest, rfl⟩ := h.isPrefix
  have hc : clean.find? Diagnostic.isExcess = none :=
    List.find?_eq_none.2 fun e he => by simpa [Diagnostic.isOther] using h.other e he
  rw [List.append_assoc, List.find?_append, hc, Option.none_or, List.singleton_append,
    List.find?_cons_of_pos h.excess]

theorem FirstExcess.takeWhile (h : FirstExcess clean d l) :
    l.takeWhile Diagnostic.isOther = clean := by
  obtain ⟨rest, rfl⟩ := h.isPrefix
  have hd : ¬ d.isOther := by simp [Diagnostic.isOther, h.excess]
  rw [List.append_assoc, List.takeWhile_append_of_pos h.other, List.singleton_append,
    List.takeWhile_cons_of_neg hd, List.append_nil]

theorem FirstExcess.isPrefix_filter (h : FirstExcess clean d l) :
    clean <+: l.filter Diagnostic.isOther := by
  obtain ⟨rest, rfl⟩ := h.isPrefix
  rw [List.append_assoc, List.filter_append, List.filter_eq_self.2 h.other]
  exact List.prefix_append ..

theorem FirstExcess.not_quiet {s : Session} (h : FirstExcess clean d s.errors.toList) :
    ¬ s.Quiet := by
  intro hs
  have hd := hs d (h.isPrefix.subset (List.mem_append_right _ (List.mem_singleton.2 rfl)))
  simp [Diagnostic.isOther, h.excess] at hd

theorem Session.Quiet.firstExcess {s : Session} (hs : s.Quiet) (hd : d.isExcess) :
    FirstExcess s.errors.toList d (s.report d).errors.toList :=
  ⟨hs, hd, toList_errors_report s d ▸ List.prefix_rfl⟩

end First

/-! ### Marks change nothing else -/

/-- The session with marks on the left, the one without on the right. -/
def marks : Simulation where
  left := id
  right := id
  Same := Eq
  SameReport d e := d = e ∧ d.isOther
  Sync s t := s.cursor = t.cursor ∧ s.depth = t.depth ∧
    s.errors.toList.filter Diagnostic.isOther = t.errors.toList
  Apart _ _ := False
  Pending _ _ _ := False
  view h := h
  kind := congrArg Token.kind
  literal := congrArg Token.literal
  failAt h hc := ⟨h ▸ rfl, isOther_of_ne_tooDeep hc _⟩
  current h := congrArg Cursor.current h.1
  peek h := congrArg Cursor.peek h.1
  next h := ⟨congrArg Cursor.advance h.1, h.2⟩
  report := by
    rintro s t d _ ⟨hc, hd, he⟩ ⟨rfl, ho⟩
    refine ⟨hc, hd, ?_⟩
    rw [Session.toList_errors_report, Session.toList_errors_report, List.filter_append, he,
      List.filter_cons_of_pos ho, List.filter_nil]
  apart h _ _ := h
  pending h _ := h
  pendingReport h := h

theorem agree_marks (limit m : Nat) :
    marks.Calls (unbounded (noteExcess limit)) (unbounded (pure ())) m := by
  refine Simulation.fix (fun m ih power s t hs hm => ?_) m
  rw [unbounded_eq, unbounded_eq]
  refine Simulation.AgreeWalk.bind (V := fun _ _ => True) ?_ fun _ _ u v _ hu ha => ?_
  · rw [run_noteExcess]
    refine .sync trivial ?_
    split
    · refine ⟨hs.1, hs.2.1, ?_⟩
      rw [Session.toList_errors_report, List.filter_append, hs.2.2]
      exact List.append_nil _
    · exact hs
  · refine Simulation.agree_nested (fun h => ⟨h.1, congrArg (· - 1) h.2.1, h.2.2⟩) id ?_
    exact ih.expressionAbove ⟨hu.1, congrArg (· + 1) hu.2.1, hu.2.2⟩
      (Nat.le_trans ha.size_le (Nat.le_of_lt_succ hm))

/-! ### Up to the first mark -/

/-- The session with a limit on the left, the one with marks on the right. -/
def limits : Simulation where
  left := id
  right := id
  Same := Eq
  SameReport d e := d = e ∧ d.isOther
  Sync s t := s = t ∧ s.Quiet
  Apart s t := ∃ clean d, FirstExcess clean d s.errors.toList ∧ FirstExcess clean d t.errors.toList
  Pending d s t := s.Quiet ∧ FirstExcess s.errors.toList d t.errors.toList
  view h := h
  kind := congrArg Token.kind
  literal := congrArg Token.literal
  failAt h hc := ⟨h ▸ rfl, isOther_of_ne_tooDeep hc _⟩
  current h := h.1 ▸ rfl
  peek h := h.1 ▸ rfl
  next h := ⟨h.1 ▸ rfl, h.2⟩
  report h hd := ⟨h.1 ▸ hd.1 ▸ rfl, h.2.report hd.2⟩
  apart := by
    rintro s t s' t' ⟨clean, d, hs, ht⟩ hl hr
    exact ⟨clean, d, hs.mono hl.reports, ht.mono hr.reports⟩
  pending h hl := ⟨h.1, h.2.mono hl.reports⟩
  pendingReport := by
    rintro d s t ⟨hs, ht⟩
    exact ⟨_, d, hs.firstExcess ht.excess, ht⟩

/-- Where the limit is reached, one of the two fails and the other one leaves a mark. -/
theorem agree_limit (limit m : Nat) :
    limits.Calls (expressionWithin limit) (unbounded (noteExcess limit)) m := by
  refine Simulation.fix (fun m ih power s t hs hm => ?_) m
  obtain ⟨rfl, hq⟩ := hs
  rw [run_expressionWithin_eq, unbounded_eq]
  by_cases hl : limit ≤ s.depth
  · rw [if_pos hl]
    have hx := leads_bind (liftM (noteExcess limit) : Parse Unit)
      (fun _ => nested (expressionAbove (unbounded (noteExcess limit)) power)) s
    rw [run_lift, run_noteExcess, if_pos hl] at hx
    -- what the one fails with is the mark of the other one, which goes on behind it
    exact .pending ⟨hq, (hq.firstExcess rfl).mono hx.reports⟩
  · rw [if_neg hl, Parse.run_bind, run_lift, run_noteExcess, if_neg hl]
    refine Simulation.agree_nested (fun h => ⟨h.1 ▸ rfl, h.2⟩) id ?_
    exact ih.expressionAbove ⟨rfl, hq⟩ (Nat.le_of_lt_succ hm)

/-! ### Round by round -/

section Rounds

variable {expr expr' : Power → Parse Expr} {closes : Kind → Bool} {hc : closes .eof} {s : Session}

/-- If the quiet rounds of one reader are also rounds of another one, then so are all rounds up to
the first one that is not quiet. -/
theorem takeWhile_rounds_prefix
    (h : ∀ {s}, s.Quiet → (firstRound expr s).quiet → firstRound expr s = firstRound expr' s)
    (hs : s.Quiet) :
    (rounds expr closes hc s).takeWhile Round.quiet <+: rounds expr' closes hc s := by
  fun_induction rounds expr closes hc s with
  | case1 => exact List.nil_prefix
  | case2 s hk ih =>
    rw [rounds_of_not_closes hk]
    by_cases hq : (firstRound expr s).quiet
    · rw [List.takeWhile_cons_of_pos hq, ← h hs hq]
      exact List.cons_prefix_cons.2 ⟨rfl, ih (Round.quiet_iff.1 hq)⟩
    · rw [List.takeWhile_cons_of_neg hq]
      exact List.nil_prefix

/-- The rounds up to the first one that is not quiet are the same if both readers have the same
quiet rounds. -/
theorem takeWhile_rounds_eq
    (h : ∀ {s}, s.Quiet → (firstRound expr s).quiet ∨ (firstRound expr' s).quiet →
      firstRound expr s = firstRound expr' s) (hs : s.Quiet) :
    (rounds expr closes hc s).takeWhile Round.quiet =
      (rounds expr' closes hc s).takeWhile Round.quiet := by
  fun_induction rounds expr closes hc s with
  | case1 s hk => rw [rounds_of_closes hk]
  | case2 s hk ih =>
    rw [rounds_of_not_closes hk]
    by_cases hq : (firstRound expr s).quiet
    · rw [← h hs (.inl hq), List.takeWhile_cons_of_pos hq, List.takeWhile_cons_of_pos hq,
        ih (Round.quiet_iff.1 hq)]
    · have hq' : ¬ (firstRound expr' s).quiet := fun hq' => hq (h hs (.inr hq') ▸ hq')
      rw [List.takeWhile_cons_of_neg hq, List.takeWhile_cons_of_neg hq']

theorem firstRound_marks {limit : Nat} (hs : s.Quiet)
    (hq : (firstRound (unbounded (noteExcess limit)) s).quiet) :
    firstRound (unbounded (noteExcess limit)) s = firstRound (unbounded (pure ())) s := by
  have h := (agree_marks limit (s.cursor.size + 1)).statement
    (s := s) (t := s) ⟨rfl, rfl, List.filter_eq_self.2 hs⟩ (Nat.lt_succ_self _)
  have hf := (firstRound (unbounded (noteExcess limit)) s).leadsTo_next.reports
  -- up to the end of a quiet round there is no mark to tell the two sessions apart
  have heq : ∀ {t u : Session}, marks.Sync t u → t.errors.toList <+:
      (firstRound (unbounded (noteExcess limit)) s).next.errors.toList → t = u := by
    rintro t u ⟨hc, hd, he⟩ hp
    rw [List.filter_eq_self.2 fun d hd => Round.quiet_iff.1 hq d (hp.subset hd)] at he
    cases t
    cases u
    cases hc
    cases hd
    cases Array.toList_inj.1 he
    rfl
  unfold firstRound at hf heq ⊢
  generalize (statement (unbounded (noteExcess limit))).run s = r at *
  generalize (statement (unbounded (pure ()))).run s = q at *
  cases h with
  | ok hv ht => rw [heq ht hf, Stmt.eq_of_mapTokens_id hv]
  | error hd ht => rw [heq ht hf, hd.1]
  | apart h => exact h.elim
  | pending h => exact h.elim

theorem firstRound_limit {limit : Nat} (hs : s.Quiet)
    (hq : (firstRound (expressionWithin limit) s).quiet ∨
      (firstRound (unbounded (noteExcess limit)) s).quiet) :
    firstRound (expressionWithin limit) s = firstRound (unbounded (noteExcess limit)) s := by
  have h := (agree_limit limit (s.cursor.size + 1)).statement
    (s := s) (t := s) ⟨rfl, hs⟩ (Nat.lt_succ_self _)
  have hf := (firstRound (expressionWithin limit) s).leadsTo_next.reports
  have hf' := (firstRound (unbounded (noteExcess limit)) s).leadsTo_next.reports
  rw [Round.quiet_iff, Round.quiet_iff] at hq
  unfold firstRound at hf hf' hq ⊢
  generalize (statement (expressionWithin limit)).run s = r at *
  generalize (statement (unbounded (noteExcess limit))).run s = q at *
  cases h with
  | ok hv ht => rw [ht.1, Stmt.eq_of_mapTokens_id hv]
  | error hd ht => rw [ht.1, hd.1]
  | apart h =>
    obtain ⟨clean, d, hl, hr⟩ := h
    exact (hq.elim (hl.mono hf).not_quiet (hr.mono hf').not_quiet).elim
  | @pending d _ t _ h =>
    -- the failure has reached the statement of the round, which reports it
    have hd : FirstExcess t.errors.toList d (t.report d).next.errors.toList :=
      h.1.firstExcess h.2.excess
    exact (hq.elim hd.not_quiet (h.2.mono hf').not_quiet).elim

end Rounds

/-! ### Whole sources -/

/-- The rounds up to the first one with a report that says that a level is too many. -/
def quietRounds (expr : Power → Parse Expr) (source : String) (file : Option String) :
    List Round := (programRounds expr source file).takeWhile Round.quiet

theorem quiet_ofSource (source : String) (file : Option String) :
    (Session.ofSource source file).Quiet := fun _ hd => absurd hd List.not_mem_nil

/-- A reader without a limit, once with and once without marks. -/
theorem parseUnbounded_marks (limit : Nat) (source : String) (file : Option String) :
    (parseUnbounded (noteExcess limit) source file).1 =
        (parseUnbounded (pure ()) source file).1 ∧
      (parseUnbounded (noteExcess limit) source file).2.toList.filter Diagnostic.isOther =
        (parseUnbounded (pure ()) source file).2.toList := by
  have h := Simulation.agree_program (agree_marks limit)
    (s := .ofSource source file) (t := .ofSource source file) ⟨rfl, rfl, rfl⟩
  unfold parseUnbounded
  generalize (program (unbounded (noteExcess limit))).run (.ofSource source file) = r at *
  generalize (program (unbounded (pure ()))).run (.ofSource source file) = q at *
  cases h with
  | sync hp hs => exact ⟨congrArg Program.mk (Stmt.eq_of_map_mapTokens_id hp), hs.2.2⟩
  | apart h => exact h.elim

/-- With a limit the result is the same, or both lists of reports have the same first mark. -/
theorem parseWithin_or (limit : Nat) (source : String) (file : Option String) :
    (parseWithin limit source file = parseUnbounded (noteExcess limit) source file ∧
        ∀ d ∈ (parseWithin limit source file).2.toList, d.isOther) ∨
      ∃ clean d, FirstExcess clean d (parseWithin limit source file).2.toList ∧
        FirstExcess clean d (parseUnbounded (noteExcess limit) source file).2.toList := by
  have h := Simulation.agree_program (agree_limit limit)
    (s := .ofSource source file) (t := .ofSource source file) ⟨rfl, quiet_ofSource source file⟩
  unfold parseWithin parseUnbounded
  generalize (program (expressionWithin limit)).run (.ofSource source file) = r at *
  generalize (program (unbounded (noteExcess limit))).run (.ofSource source file) = q at *
  cases h with
  | sync hp hs =>
    obtain ⟨rfl, hq⟩ := hs
    exact .inl ⟨Prod.ext (congrArg Program.mk (Stmt.eq_of_map_mapTokens_id hp)) rfl, hq⟩
  | apart h => exact .inr h

theorem quietRounds_limit (limit : Nat) (source : String) (file : Option String) :
    quietRounds (expressionWithin limit) source file =
      quietRounds (unbounded (noteExcess limit)) source file :=
  takeWhile_rounds_eq firstRound_limit (quiet_ofSource source file)

theorem quietRounds_marks (limit : Nat) (source : String) (file : Option String) :
    quietRounds (unbounded (noteExcess limit)) source file <+:
      programRounds (unbounded (pure ())) source file :=
  takeWhile_rounds_prefix firstRound_marks (quiet_ofSource source file)

theorem statements_of_rounds_prefix {expr : Power → Parse Expr} {source : String}
    {file : Option String} {rs : List Round} (h : rs <+: programRounds expr source file) :
    rs.filterMap Round.statement? <+:
      ((program expr).run (.ofSource source file)).1.statements := by
  rw [(run_program_rounds expr source file).1]
  exact h.filterMap _

/-- **The limit is transparent.**  Marks change nothing but the reports that they are.  Without a
mark, the limit changes nothing at all.  With one, the first mark is the first report of a reader
with the limit that says that a level is too many, and the reports and the rounds before it are
those of the readers without a limit. -/
theorem parse_unbounded (source : String) (file : Option String) :
    ((parseMarked source file).1 = (parseFree source file).1 ∧
        (parseMarked source file).2.toList.filter Diagnostic.isOther =
          (parseFree source file).2.toList) ∧
      ((parseMarked source file).2.toList.find? Diagnostic.isExcess = none →
        parse source file = parseFree source file ∧
          ∀ d ∈ (parse source file).2.toList, d.isOther) ∧
      ∀ d, (parseMarked source file).2.toList.find? Diagnostic.isExcess = some d →
        (parse source file).2.toList.find? Diagnostic.isExcess = some d ∧
        ((parse source file).2.toList.takeWhile Diagnostic.isOther =
            (parseMarked source file).2.toList.takeWhile Diagnostic.isOther ∧
          (parse source file).2.toList.takeWhile Diagnostic.isOther <+:
            (parseFree source file).2.toList) ∧
        (quietRounds expression source file =
            quietRounds (unbounded (noteExcess maxLevels)) source file ∧
          quietRounds expression source file <+:
            programRounds (unbounded (pure ())) source file) ∧
        (quietRounds expression source file).filterMap Round.statement? <+:
            (parse source file).1.statements ∧
          (quietRounds expression source file).filterMap Round.statement? <+:
            (parseFree source file).1.statements := by
  have hm := parseUnbounded_marks maxLevels source file
  have hb : quietRounds expression source file =
      quietRounds (unbounded (noteExcess maxLevels)) source file :=
    quietRounds_limit maxLevels source file
  have hf : quietRounds expression source file <+:
      programRounds (unbounded (pure ())) source file :=
    hb ▸ quietRounds_marks maxLevels source file
  refine ⟨hm, fun hn => ?_, fun d hd => ?_⟩
  · rcases parseWithin_or maxLevels source file with ⟨he, ho⟩ | ⟨clean, d, -, hr⟩
    · have hq : (parseMarked source file).2.toList.filter Diagnostic.isOther =
          (parseMarked source file).2.toList :=
        List.filter_eq_self.2 fun d hd => ho d (he ▸ hd)
      have h2 : (parseMarked source file).2 = (parseFree source file).2 :=
        Array.toList_inj.1 (hq.symm.trans hm.2)
      exact ⟨he.trans (Prod.ext hm.1 h2), ho⟩
    · exact absurd (hr.find?.symm.trans hn) nofun
  · rcases parseWithin_or maxLevels source file with ⟨he, ho⟩ | ⟨clean, e, hl, hr⟩
    · have hx := List.find?_some hd
      have hq := ho d (he ▸ List.mem_of_find?_eq_some hd)
      rw [Diagnostic.isOther, hx] at hq
      exact absurd hq nofun
    · cases hr.find?.symm.trans hd
      have hc : (parse source file).2.toList.takeWhile Diagnostic.isOther = clean := hl.takeWhile
      refine ⟨hl.find?, ⟨hc.trans hr.takeWhile.symm, ?_⟩, ⟨hb, hf⟩, ?_, ?_⟩
      · rw [hc]
        exact hm.2 ▸ hr.isPrefix_filter
      · exact statements_of_rounds_prefix (List.takeWhile_prefix _)
      · exact statements_of_rounds_prefix hf

end ExprLang
