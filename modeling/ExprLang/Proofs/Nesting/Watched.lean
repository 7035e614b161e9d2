import ExprLang.Proofs.Parsing.Depth
import ExprLang.Proofs.Parsing.Lookahead

/-!
# Levels under watch

A level is opened and closed by `Parse.nested`, and by nothing else.  `Parse.watched` does the same
and sounds an alarm where a level more is opened than there may be, or where one is closed that was
open before; what the alarm does is left to the reader.  With all levels of a parse under watch
(`watchedExpression`) nothing changes, whatever the alarm does: it is never sounded
(`Operation.keeps_levels`).  So from `d` open levels on, with `d` at most 128, there are at no time
fewer than `d` or more than 128 of them, and in the end there are `d`.
-/

namespace ExprLang

open Parse Walk

/-! ### The watch -/

def Walk.soundIf (wrong : Nat → Prop) [DecidablePred wrong] (alarm : Walk Unit) : Walk Unit := do
  if wrong (← Walk.depth) then alarm

/-- Acts one level deeper, and comes back also when it fails; sounds the alarm if `high` levels are
open already, and if it comes back where no more than `low` are open. -/
def Parse.watched (low high : Nat) (alarm : Walk Unit) (x : Parse Expr) : Parse Expr := ⟨do
  Walk.soundIf (high ≤ ·) alarm
  Walk.enterLevel
  let r ← x.attempt
  Walk.soundIf (· ≤ low) alarm
  Walk.leaveLevel
  return r⟩

/-- An expression that may open so many levels, each of them by `nest`. -/
def expressionBy (nest : Parse Expr → Parse Expr) (limit : Nat) : Nat → Power → Parse Expr
  | 0, _ => do Parse.failAt (← Walk.current) (.tooDeep limit)
  | levels + 1, power => nest (Grammar.expressionAbove (expressionBy nest limit levels) power)

/-- The expressions of the parser with all levels under watch; `low` of them are open before. -/
def watchedExpression (low : Nat) (alarm : Walk Unit) (power : Power) : Parse Expr := do
  expressionBy (Parse.watched low maxLevels alarm) maxLevels (maxLevels - (← Walk.depth)) power

/-! ### Without an alarm -/

theorem Walk.run_soundIf {wrong : Nat → Prop} [DecidablePred wrong] {alarm : Walk Unit}
    {s : Session} (h : ¬ wrong s.depth) : (soundIf wrong alarm).run s = ((), s) := by
  rw [soundIf, Walk.run_bind, run_depth, if_neg h, Walk.run_pure]

/-- A watch whose alarm does nothing is none. -/
theorem Parse.watched_pure (low high : Nat) (x : Parse Expr) :
    Parse.watched low high (pure ()) x = nested x := by
  have hsound : ∀ (wrong : Nat → Prop) [DecidablePred wrong] (s : Session),
      (Walk.soundIf wrong (pure ())).run s = ((), s) := by
    intro wrong _ s
    simp only [Walk.soundIf, ite_self, Walk.run_bind, Walk.run_pure, run_depth]
  apply Parse.ext
  intro s
  simp only [watched, nested, run_mk, Walk.run_bind, hsound]

theorem expressionBy_nested (limit levels : Nat) :
    expressionBy nested limit levels = expressionOn limit levels := by
  induction levels with
  | zero => rfl
  | succ levels ih =>
    funext power
    rw [expressionBy, expressionOn, ih]

/-- With an alarm that does nothing the watch cannot be told from the parser. -/
theorem watchedExpression_pure (low : Nat) : watchedExpression low (pure ()) = expression := by
  have hwatched : Parse.watched low maxLevels (pure ()) = nested := by
    funext x
    exact Parse.watched_pure low maxLevels x
  funext power
  apply Parse.ext
  intro s
  show (expressionBy (Parse.watched low maxLevels (pure ())) maxLevels (maxLevels - s.depth)
    power).run s = (expression power).run s
  rw [hwatched, expressionBy_nested, expression, run_expressionWithin]

/-! ### The alarm is not sounded -/

section

variable {low high limit levels : Nat} {alarm : Walk Unit} {s : Session}

theorem Parse.run_watched {x : Parse Expr} (henter : s.depth < high)
    (hleave : low < (x.run s.deeper).2.depth) :
    (watched low high alarm x).run s = (nested x).run s := by
  have hlast : (Walk.soundIf (· ≤ low) alarm).run (x.run s.deeper).2 = ((), (x.run s.deeper).2) :=
    Walk.run_soundIf (Nat.not_le.2 hleave)
  have hfirst : (Walk.soundIf (high ≤ ·) alarm).run s = ((), s) :=
    Walk.run_soundIf (Nat.not_le.2 henter)
  rw [run_nested_deeper, ← run_attempt, watched]
  simp only [Walk.run_bind, hfirst]
  show ((x.run s.deeper).1, (Walk.leaveLevel.run
    ((Walk.soundIf (· ≤ low) alarm).run (x.run s.deeper).2).2).2) = _
  rw [hlast]
  rfl

/-- Between `low` and `high` there is room for as many levels as an expression may open. -/
theorem run_expressionBy_watched (power : Power) (hlow : low ≤ s.depth)
    (hhigh : s.depth + levels ≤ high) :
    (expressionBy (Parse.watched low high alarm) limit levels power).run s =
      (expressionOn limit levels power).run s := by
  induction levels generalizing power s with
  | zero => rfl
  | succ levels ih =>
    have hdepth : s.deeper.depth = s.depth + 1 := Session.depth_deeper s
    have hcalls : (Simulation.equal (·.depth = s.depth + 1) id id).Calls
        (expressionBy (Parse.watched low high alarm) limit levels) (expressionOn limit levels)
        (s.deeper.cursor.size) := by
      rintro p t _ ⟨rfl, ht⟩ -
      rw [ih p (by omega) (by omega)]
      exact Simulation.agree_self ((keepsDepth_expressionOn limit levels p t).trans ht)
    have habove := hcalls.expressionAbove (p := power) ⟨rfl, hdepth⟩ (Nat.le_refl _)
    have hrun := habove.eq Expr.eq_of_mapTokens_id
    have hback := habove.settled.2
    rw [expressionBy, expressionOn, Parse.run_watched (by omega) (by rw [hrun, hback]; omega),
      Parse.run_nested_deeper, Parse.run_nested_deeper, hrun]

/-- Where `d` levels are open, expressions are read under watch as they are without. -/
theorem calls_watchedExpression {d : Nat} (hd : d ≤ maxLevels) (alarm : Walk Unit) (m : Nat) :
    (Simulation.equal (·.depth = d) id id).Calls (watchedExpression d alarm) expression m := by
  rintro power s _ ⟨rfl, hs⟩ -
  have hrun : (watchedExpression d alarm power).run s = (expression power).run s := by
    have hroom : s.depth + (maxLevels - s.depth) ≤ maxLevels := by omega
    exact run_expressionBy_watched power (Nat.le_of_eq hs.symm) hroom
  rw [hrun, expression, run_expressionWithin]
  exact Simulation.agree_self ((keepsDepth_expressionOn _ _ power s).trans hs)

end

/-! ### Operations -/

/-- An operation leaves the same session behind with expressions that agree, and with it a property
that no step takes away. -/
theorem Simulation.Calls.settled_actWith {P : Session → Prop} {hn : ∀ {s}, P s → P s.next}
    {hr : ∀ {s d}, P s → P (s.report d)} {expr expr' : Power → Parse Expr} {s : Session}
    (h : ∀ m, (equal P hn hr).Calls expr expr' m) {o : Operation} (henter : o ≠ .enter)
    (hleave : o ≠ .leave) (hs : P s) :
    ((o.actWith expr).run s).2 = ((o.actWith expr').run s).2 ∧ P ((o.actWith expr').run s).2 := by
  have hsync : (equal P hn hr).Sync s s := ⟨rfl, hs⟩
  have hsize := Nat.lt_succ_self s.cursor.size
  have hnext := Nat.lt_succ_of_le (size_next_le s)
  cases o with
  | advance => exact ⟨rfl, hn hs⟩
  | expect k =>
    refine ⟨rfl, ?_⟩
    show P ((Parse.expect k).run s).2
    rw [run_expect]
    split
    · exact hn hs
    · exact hs
  | enter => exact absurd rfl henter
  | leave => exact absurd rfl hleave
  | record d => exact ⟨rfl, hr hs⟩
  | expression p => exact (h _ p s s hsync hsize).settled
  | ident => exact (agree_ident hsync).settled
  | number => exact (agree_number hsync).settled
  | boolean => exact (agree_boolean hsync).settled
  | unary => exact ((h _).unary hsync hnext).settled
  | grouped => exact ((h _).grouped hsync hnext).settled
  | conditional => exact ((h _).conditional hsync hnext).settled
  | binary left => exact ((h _).binary (l := left) rfl hsync hsize).settled
  | binding => exact ((h _).binding hsync hsize).settled
  | result => exact ((h _).result hsync hsize).settled
  | bareExpression => exact ((h _).bareExpression hsync hsize).settled
  | statement => exact ((h _).statement hsync hsize).settled
  | block => exact ((h _).block hsync hsize).settled
  | recordedStatement => exact ((h _).statement hsync hsize).recorded.settled
  | program => exact (agree_program h hsync).settled

/-- **Levels are given back.**  Whatever is done with a session in which no more than 128 levels are
open, as many are open afterwards as before; and no alarm is sounded on the way, so none of these
levels is closed, and never are more than 128 open.  Only to open or to close a level by itself is
another matter. -/
theorem Operation.keeps_levels (o : Operation) (henter : o ≠ .enter) (hleave : o ≠ .leave)
    (s : Session) (hs : s.depth ≤ maxLevels) :
    (o.run s).depth = s.depth ∧
      ∀ alarm : Walk Unit, ((o.actWith (watchedExpression s.depth alarm)).run s).2 = o.run s := by
  have hsettled := fun alarm => Simulation.Calls.settled_actWith
    (calls_watchedExpression hs alarm) henter hleave rfl
  exact ⟨(hsettled (pure ())).2, fun alarm => (hsettled alarm).1⟩

/-- One level is open, in front of an `if` with a statement that fails in its block. -/
def Session.beforeConditional : Session :=
  Operation.enter.run (.ofSource "if (a) \x7b let 1; !(b) \x7d" none)

/-- The failure is reported while two levels are open, and still no alarm is sounded. -/
theorem Operation.keeps_levels_conditional :
    Operation.conditional ≠ .enter ∧ Operation.conditional ≠ .leave ∧
      Session.beforeConditional.depth ≤ maxLevels ∧
      (Operation.conditional.run .beforeConditional).errors =
        #[⟨.unexpected .ident .int, ⟨13, "shell"⟩⟩] ∧
      (Operation.conditional.run .beforeConditional).depth = 1 ∧
      ((Operation.conditional.actWith (watchedExpression 1 (Walk.record ⟨.tooDeep 0, default⟩))).run
        .beforeConditional).2 = Operation.conditional.run .beforeConditional := by
  have hdepth : Session.beforeConditional.depth = 1 := by decide +kernel
  have hs : Session.beforeConditional.depth ≤ maxLevels := by decide +kernel
  obtain ⟨hback, halarm⟩ := Operation.keeps_levels .conditional nofun nofun .beforeConditional hs
  rw [hdepth] at hback halarm
  exact ⟨nofun, nofun, hs, by decide +kernel, hback, halarm _⟩

end ExprLang
