import ExprLang.Parser
import ExprLang.Proofs.Scanning.Sequence

/-!
# One token of lookahead

A session holds two tokens and a scanner.  Whatever is done with it (`Operation`), these three are
at one place of the stream of tokens of the source: the current token, the one behind it, and all
others (`Session.Sees`).  The place never moves back, and reports are only added.
-/

namespace ExprLang

/-- The tokens of a source, and behind them the end token for ever. -/
def tokenStream (source : String) (file : Option String) (n : Nat) : Token :=
  (tokenize source file).getD n ((tokenize source file).getLast (Scanner.tokens_ne_nil _))

/-- The session is at the `n`-th token of the stream: this one is the current one, the next one is
seen, and those behind it are still to be scanned. -/
structure Session.Sees (s : Session) (stream : Nat → Token) (n : Nat) : Prop where
  current : s.cursor.current = stream n
  peek : s.cursor.peek = stream (n + 1)
  scanner : ∀ k, (s.cursor.scanner.after k).next.1 = stream (n + 2 + k)

/-! ### What can be done with a session -/

/-- The ways to act on a session, each of them possible at any time. -/
inductive Operation
  | advance
  | expect (kind : Kind)
  | enter
  | leave
  | record (d : Diagnostic)
  | expression (power : Power)
  | ident | number | boolean | unary | grouped | conditional
  | binary (left : Expr)
  | binding | result | bareExpression | statement
  | block
  | recordedStatement
  | program

namespace Operation

/-- What an operation does if the expressions in it are read by `expr`; its result, a failure
included, is not looked at. -/
def actWith (expr : Power → Parse Expr) : Operation → Walk Unit
  | advance => Walk.advance
  | expect k => discard (Parse.expect k).attempt
  | enter => discard (Parse.enter maxLevels).attempt
  | leave => Walk.leaveLevel
  | record d => Walk.record d
  | expression p => discard (expr p).attempt
  | ident => discard Grammar.ident.attempt
  | number => discard Grammar.number.attempt
  | boolean => discard Grammar.boolean.attempt
  | unary => discard (Grammar.unary expr).attempt
  | grouped => discard (Grammar.grouped expr).attempt
  | conditional => discard (Grammar.conditional expr).attempt
  | binary left => discard (Grammar.binary expr left).attempt
  | binding => discard (Grammar.binding expr).attempt
  | result => discard (Grammar.result expr).attempt
  | bareExpression => discard (Grammar.bareExpression expr).attempt
  | statement => discard (Grammar.statement expr).attempt
  | block => discard (Grammar.block expr)
  | recordedStatement => discard (Parse.recorded (Grammar.statement expr))
  | program => discard (Grammar.program expr)

def act (o : Operation) : Walk Unit := o.actWith ExprLang.expression

def run (o : Operation) (s : Session) : Session := (o.act.run s).2

def runAll (os : List Operation) (s : Session) : Session := os.foldl (fun t o => o.run t) s

theorem leads_run (o : Operation) (s : Session) : s.LeadsTo (o.run s) := o.act.leads s

/-- One operation more, or none if there is none left. -/
theorem leads_runAll_take_succ (os : List Operation) (s : Session) (n : Nat) :
    (runAll (os.take n) s).LeadsTo (runAll (os.take (n + 1)) s) := by
  by_cases h : n < os.length
  · have hlast : os.take (n + 1) = os.take n ++ [os[n]] := (List.take_append_getElem h).symm
    rw [hlast, runAll, runAll, List.foldl_append]
    exact leads_run _ _
  · have h' : os.length ≤ n := by omega
    rw [List.take_of_length_le h', List.take_of_length_le (Nat.le_succ_of_le h')]
    exact .refl _

end Operation

/-! ### Cursors in the stream -/

theorem Scanner.after_succ_next (s : Scanner) (n : Nat) : s.after (n + 1) = (s.after n).next.2 := by
  rw [after_add]
  rfl

/-- Steps move the two tokens and the scanner of a cursor alike. -/
theorem Cursor.after_ofScanner (s : Scanner) (n : Nat) :
    (ofScanner s).after n = ⟨(s.after n).next.1, (s.after (n + 1)).next.1, s.after (n + 2)⟩ := by
  induction n with
  | zero => rfl
  | succ n ih =>
    rw [after_succ, ih, advance]
    simp only [← Scanner.after_succ_next]

theorem getLast_tokenize (source : String) (file : Option String) :
    (tokenize source file).getLast (Scanner.tokens_ne_nil _) =
      (Scanner.ofSource source file).endToken := by
  simp only [tokenize, Scanner.tokens_eq_upcoming]
  exact List.getLast_concat

theorem next_after_ofSource (source : String) (file : Option String) (n : Nat) :
    ((Scanner.ofSource source file).after n).next.1 = tokenStream source file n := by
  rw [tokenStream, getLast_tokenize, Scanner.next_after, tokenize]

/-- After some steps from its beginning, a session is that far in the stream of its source. -/
theorem sees_after {source : String} {file : Option String} {s : Session} {n : Nat}
    (h : s.cursor = (Session.ofSource source file).cursor.after n) :
    s.Sees (tokenStream source file) n := by
  rw [Session.ofSource, Cursor.after_ofScanner] at h
  refine ⟨?_, ?_, fun k => ?_⟩
  · rw [h, ← next_after_ofSource]
  · rw [h, ← next_after_ofSource]
  · rw [h, ← Scanner.after_add, next_after_ofSource]

/-- In a row of sessions of which each leads to the next one, the cursors are further and further
behind the first. -/
theorem exists_steps {s : Nat → Session} (h : ∀ n, (s n).LeadsTo (s (n + 1))) :
    ∃ index : Nat → Nat, index 0 = 0 ∧ (∀ n, index n ≤ index (n + 1)) ∧
      ∀ n, (s n).cursor = (s 0).cursor.after (index n) := by
  obtain ⟨steps, hsteps⟩ := Classical.axiomOfChoice fun n => (h n).ahead
  refine ⟨fun n => ((List.range n).map steps).sum, rfl, fun n => ?_, fun n => ?_⟩
  · simp only [List.range_succ, List.map_append, List.sum_append]
    exact Nat.le_add_right _ _
  · induction n with
    | zero => rfl
    | succ n ih =>
      rw [hsteps n, ih, ← Cursor.after_add]
      simp [List.range_succ]

/-- Whatever operations are done on a session of a source: it stays in the stream of the source's
tokens, at a place that never moves back, and what has been reported stays reported. -/
theorem runAll_sees (source : String) (file : Option String) (os : List Operation) :
    ∃ index : Nat → Nat, index 0 = 0 ∧ ∀ n,
      index n ≤ index (n + 1) ∧
      (Operation.runAll (os.take n) (.ofSource source file)).Sees (tokenStream source file)
        (index n) ∧
      (Operation.runAll (os.take n) (.ofSource source file)).errors.toList <+:
        (Operation.runAll (os.take (n + 1)) (.ofSource source file)).errors.toList := by
  have hleads := Operation.leads_runAll_take_succ os (.ofSource source file)
  obtain ⟨index, h0, hle, hindex⟩ := exists_steps hleads
  exact ⟨index, h0, fun n => ⟨hle n, sees_after (hindex n), (hleads n).reports⟩⟩

end ExprLang
