import ExprLang.Proofs.Parsing.Forms

/-!
# The rounds of a list of statements

A list of statements is read in rounds: in each one a statement is tried, a failure is reported, and
the token where it left off is stepped over.  `rounds` lists what happened, round by round; the
statements that are read and the reports that are made are those of the rounds
(`run_statements_rounds`).
-/

namespace ExprLang

/-- One round: where it begins, what becomes of its statement, and where the statement leaves
off. -/
structure Round where
  start : Session
  outcome : Except Diagnostic Stmt
  finish : Session

namespace Round

def statement? (r : Round) : Option Stmt := r.outcome.toOption

def next (r : Round) : Session :=
  match r.outcome with
  | .ok _ => r.finish.next
  | .error d => (r.finish.report d).next

/-- What is reported in a round while its statement is read: the failures of statements inside
it. -/
def inner (r : Round) : List Diagnostic := r.finish.errors.toList.drop r.start.errors.size

def own (r : Round) : List Diagnostic :=
  match r.outcome with
  | .ok _ => []
  | .error d => [d]

def reports (r : Round) : List Diagnostic := r.inner ++ r.own

/-- The next round begins behind the token on which the statement leaves off. -/
theorem cursor_next (r : Round) : r.next.cursor = r.finish.cursor.advance := by
  unfold next
  cases r.outcome <;> rfl

theorem leadsTo_next (r : Round) : r.finish.LeadsTo r.next := by
  unfold next
  cases r.outcome with
  | ok st => exact r.finish.leadsTo_next
  | error d => exact (r.finish.leadsTo_report d).trans (Session.leadsTo_next _)

end Round

namespace Grammar

open Parse Walk

variable {expr : Power → Parse Expr} {closes : Kind → Bool} {h : closes .eof}

def firstRound (expr : Power → Parse Expr) (s : Session) : Round :=
  ⟨s, ((statement expr).run s).1, ((statement expr).run s).2⟩

theorem fst_recorded_statement (expr : Power → Parse Expr) (s : Session) :
    ((recorded (statement expr)).run s).1 = (firstRound expr s).statement? := by
  unfold firstRound Round.statement?
  rw [run_recorded]
  rcases (statement expr).run s with ⟨d | st, t⟩ <;> rfl

theorem next_recorded_statement (expr : Power → Parse Expr) (s : Session) :
    ((recorded (statement expr)).run s).2.next = (firstRound expr s).next := by
  unfold firstRound Round.next
  rw [run_recorded]
  rcases (statement expr).run s with ⟨d | st, t⟩ <;> rfl

theorem size_next_firstRound_lt (h : closes .eof) {s : Session}
    (hc : ¬ closes s.cursor.current.kind) :
    (firstRound expr s).next.cursor.size < s.cursor.size := by
  rw [← next_recorded_statement]
  exact size_next_statement_lt h hc

/-- The rounds of the list of statements that begins here. -/
def rounds (expr : Power → Parse Expr) (closes : Kind → Bool) (h : closes .eof) (s : Session) :
    List Round :=
  if closes s.cursor.current.kind then []
  else firstRound expr s :: rounds expr closes h (firstRound expr s).next
termination_by s.cursor.size
decreasing_by exact size_next_firstRound_lt h ‹_›

theorem rounds_of_closes {s : Session} (hc : closes s.cursor.current.kind) :
    rounds expr closes h s = [] := by rw [rounds, if_pos hc]

theorem rounds_of_not_closes {s : Session} (hc : ¬ closes s.cursor.current.kind) :
    rounds expr closes h s =
      firstRound expr s :: rounds expr closes h (firstRound expr s).next := by
  rw [rounds, if_neg hc]

/-- Every round begins somewhere ahead, on a token that does not close the list. -/
theorem exists_of_mem_rounds {s : Session} {r : Round} (hr : r ∈ rounds expr closes h s) :
    ∃ t : Session, r = firstRound expr t ∧ s.cursor.Ahead t.cursor ∧
      ¬ closes t.cursor.current.kind := by
  fun_induction rounds expr closes h s with
  | case1 s hc => exact absurd hr List.not_mem_nil
  | case2 s hc ih =>
    rcases List.mem_cons.1 hr with rfl | hr
    · exact ⟨s, rfl, .refl _, hc⟩
    · obtain ⟨t, rfl, ha, ht⟩ := ih hr
      have hfinish : s.cursor.Ahead (firstRound expr s).finish.cursor :=
        (statement expr).attempt.ahead s
      exact ⟨t, rfl, (hfinish.trans (firstRound expr s).leadsTo_next.ahead).trans ha, ht⟩

/-- Where a list of statements ends that has gone through these rounds. -/
def lastSession (s : Session) : List Round → Session
  | [] => s
  | r :: rs => lastSession r.next rs

theorem run_statements_rounds (s : Session) :
    (statements expr closes h).run s =
      ((rounds expr closes h s).filterMap Round.statement?,
        lastSession s (rounds expr closes h s)) := by
  fun_induction rounds expr closes h s with
  | case1 s hc => rw [run_statements, if_pos hc, List.filterMap_nil, lastSession]
  | case2 s hc ih =>
    rw [run_statements, if_neg hc, lastSession]
    simp only [fst_recorded_statement, next_recorded_statement, ih]
    cases ho : (firstRound expr s).statement? with
    | none => simp [ho]
    | some st => simp [ho]

/-- A round adds its reports to those of the earlier ones. -/
theorem errors_next_firstRound (expr : Power → Parse Expr) (s : Session) :
    (firstRound expr s).next.errors.toList = s.errors.toList ++ (firstRound expr s).reports := by
  have hp : s.errors.toList <+: (firstRound expr s).finish.errors.toList :=
    ((statement expr).attempt.leads s).reports
  have hinner : s.errors.toList ++ (firstRound expr s).inner =
      (firstRound expr s).finish.errors.toList := List.prefix_iff_eq_append.1 hp
  rw [Round.reports, ← List.append_assoc, hinner]
  unfold Round.next Round.own
  cases (firstRound expr s).outcome with
  | ok st => exact (List.append_nil _).symm
  | error d => exact Session.toList_errors_report ..

theorem errors_rounds (s : Session) :
    ((statements expr closes h).run s).2.errors.toList =
      s.errors.toList ++ (rounds expr closes h s).flatMap Round.reports := by
  rw [run_statements_rounds]
  fun_induction rounds expr closes h s with
  | case1 s hc => simp [lastSession]
  | case2 s hc ih =>
    simp only at ih
    rw [lastSession, ih, errors_next_firstRound, List.flatMap_cons, List.append_assoc]

/-- The end of the source closes a program. -/
theorem eof_closes_program : (Kind.eof == Kind.eof) = true := rfl

def programRounds (expr : Power → Parse Expr) (source : String) (file : Option String) :
    List Round := rounds expr (· == .eof) eof_closes_program (.ofSource source file)

/-- What is read of a source, and what is reported. -/
theorem run_program_rounds (expr : Power → Parse Expr) (source : String) (file : Option String) :
    ((program expr).run (.ofSource source file)).1.statements =
        (programRounds expr source file).filterMap Round.statement? ∧
      ((program expr).run (.ofSource source file)).2.errors.toList =
        (programRounds expr source file).flatMap Round.reports :=
  ⟨congrArg Prod.fst (run_statements_rounds _), errors_rounds _⟩

end Grammar

end ExprLang
