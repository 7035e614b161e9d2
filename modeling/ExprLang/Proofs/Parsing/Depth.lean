import ExprLang.Proofs.Parsing.Rounds
import ExprLang.Proofs.Parsing.Simulation

/-!
# Levels are given back

Every parse of the grammar closes the levels that it opens, whether it fails or not
(`keepsDepth_expressionOn`).  So the number of levels that `expressionWithin` may still open is the
same at every statement of a list, and the list reads like one over `expressionOn`
(`run_statements_expressionWithin`).  So does a whole source (`parse_eq_run`).
-/

namespace ExprLang

namespace Walk

variable {α β : Type}

def KeepsDepth (x : Walk α) : Prop := ∀ s : Session, (x.run s).2.depth = s.depth

theorem keepsDepth_pure (a : α) : (pure a : Walk α).KeepsDepth := fun _ => rfl

theorem KeepsDepth.bind {x : Walk α} {f : α → Walk β} (hx : x.KeepsDepth)
    (hf : ∀ a, (f a).KeepsDepth) : (x >>= f).KeepsDepth :=
  fun s => (hf _ _).trans (hx s)

theorem keepsDepth_look (f : Session → α) : (look f).KeepsDepth := fun _ => rfl

theorem keepsDepth_current : current.KeepsDepth := keepsDepth_look _

theorem keepsDepth_peek : peek.KeepsDepth := keepsDepth_look _

theorem keepsDepth_advance : advance.KeepsDepth := fun _ => rfl

theorem keepsDepth_loop {next? : α → Session → Option (Walk α)} {uses : UsesUp next?}
    (h : ∀ a s x, next? a s = some x → x.KeepsDepth) (a : α) : (loop next? uses a).KeepsDepth := by
  intro s
  rw [run_loop]
  fun_induction loopRun next? uses a s with
  | case1 => rfl
  | case2 a s x hx ih => exact ih.trans (h a s x hx s)

end Walk

namespace Parse

variable {α β : Type}

/-- At the end of the parse, also if it fails, as many levels are open as at its beginning. -/
def KeepsDepth (x : Parse α) : Prop := ∀ s : Session, (x.run s).2.depth = s.depth

theorem keepsDepth_pure (a : α) : (pure a : Parse α).KeepsDepth := fun _ => rfl

theorem KeepsDepth.bind {x : Parse α} {f : α → Parse β} (hx : x.KeepsDepth)
    (hf : ∀ a, (f a).KeepsDepth) : (x >>= f).KeepsDepth := by
  intro s
  have h := hx s
  rw [run_bind]
  rcases hr : x.run s with ⟨d | a, t⟩
  · rw [hr] at h
    exact h
  · rw [hr] at h
    exact (hf a t).trans h

theorem keepsDepth_lift {x : Walk α} (hx : x.KeepsDepth) : (liftM x : Parse α).KeepsDepth := hx

theorem keepsDepth_current : (liftM Walk.current : Parse Token).KeepsDepth := fun _ => rfl

theorem keepsDepth_advance : (liftM Walk.advance : Parse Unit).KeepsDepth := fun _ => rfl

theorem keepsDepth_failAt (t : Token) (c : Cause) : (failAt t c : Parse α).KeepsDepth :=
  fun _ => rfl

theorem keepsDepth_expect (k : Kind) : (expect k).KeepsDepth := by
  intro s
  rw [run_expect]
  split <;> rfl

/-- The level that is opened first is closed last. -/
theorem KeepsDepth.nested {x : Parse α} (hx : x.KeepsDepth) : (nested x).KeepsDepth := by
  intro s
  rw [run_nested]
  have h := hx { s with depth := s.depth + 1 }
  simp only at h ⊢
  rw [h]
  rfl

theorem KeepsDepth.recorded {x : Parse α} (hx : x.KeepsDepth) :
    Walk.KeepsDepth (recorded x) := by
  intro s
  have h := hx s
  rw [run_recorded]
  rcases hr : x.run s with ⟨d | a, t⟩
  · rw [hr] at h
    exact h
  · rw [hr] at h
    exact h

end Parse

namespace Grammar

open Parse Walk

variable {expr : Power → Parse Expr}

theorem keepsDepth_skipSemicolon : skipSemicolon.KeepsDepth := by
  refine Walk.keepsDepth_peek.bind fun t => ?_
  split
  · exact Walk.keepsDepth_advance
  · exact Walk.keepsDepth_pure ()

section

variable (h : ∀ p, (expr p).KeepsDepth)

include h

theorem keepsDepth_binding : (binding expr).KeepsDepth :=
  Parse.keepsDepth_current.bind fun _ => (keepsDepth_expect _).bind fun _ =>
    Parse.keepsDepth_current.bind fun _ => (keepsDepth_expect _).bind fun _ =>
      Parse.keepsDepth_advance.bind fun _ => (h _).bind fun _ =>
        (keepsDepth_lift keepsDepth_skipSemicolon).bind fun _ => Parse.keepsDepth_pure _

theorem keepsDepth_result : (result expr).KeepsDepth :=
  Parse.keepsDepth_current.bind fun _ => Parse.keepsDepth_advance.bind fun _ => (h _).bind fun _ =>
    (keepsDepth_lift keepsDepth_skipSemicolon).bind fun _ => Parse.keepsDepth_pure _

theorem keepsDepth_bareExpression : (bareExpression expr).KeepsDepth :=
  Parse.keepsDepth_current.bind fun _ => (h _).bind fun _ =>
    (keepsDepth_lift keepsDepth_skipSemicolon).bind fun _ => Parse.keepsDepth_pure _

theorem keepsDepth_statement : (statement expr).KeepsDepth := by
  refine Parse.keepsDepth_current.bind fun t => ?_
  cases t.kind
  case letWord => exact keepsDepth_binding h
  case returnWord => exact keepsDepth_result h
  all_goals exact keepsDepth_bareExpression h

theorem keepsDepth_statements {closes : Kind → Bool} {hc : closes .eof} :
    (statements expr closes hc).KeepsDepth := by
  refine (Walk.keepsDepth_loop ?_ _).bind fun _ => Walk.keepsDepth_pure _
  intro before s x hx
  unfold nextStatement? at hx
  split at hx
  · exact absurd hx nofun
  · cases hx
    exact (keepsDepth_statement h).recorded.bind fun _ =>
      Walk.keepsDepth_advance.bind fun _ => Walk.keepsDepth_pure _

theorem keepsDepth_block : (block expr).KeepsDepth :=
  Walk.keepsDepth_current.bind fun _ => Walk.keepsDepth_advance.bind fun _ =>
    (keepsDepth_statements h).bind fun _ => Walk.keepsDepth_pure _

theorem keepsDepth_unary : (unary expr).KeepsDepth :=
  Parse.keepsDepth_current.bind fun _ => Parse.keepsDepth_advance.bind fun _ => (h _).bind fun _ =>
    Parse.keepsDepth_pure _

theorem keepsDepth_binary (left : Expr) : (binary expr left).KeepsDepth :=
  Parse.keepsDepth_current.bind fun _ => Parse.keepsDepth_advance.bind fun _ => (h _).bind fun _ =>
    Parse.keepsDepth_pure _

theorem keepsDepth_grouped : (grouped expr).KeepsDepth :=
  Parse.keepsDepth_advance.bind fun _ => (h _).bind fun _ => (keepsDepth_expect _).bind fun _ =>
    Parse.keepsDepth_pure _

theorem keepsDepth_conditional : (conditional expr).KeepsDepth := by
  refine Parse.keepsDepth_current.bind fun _ => (keepsDepth_expect _).bind fun _ =>
    Parse.keepsDepth_advance.bind fun _ => (h _).bind fun _ => (keepsDepth_expect _).bind fun _ =>
      (keepsDepth_expect _).bind fun _ => (keepsDepth_lift (keepsDepth_block h)).bind fun _ =>
        (keepsDepth_lift Walk.keepsDepth_peek).bind fun t => ?_
  split
  · exact Parse.keepsDepth_advance.bind fun _ => (keepsDepth_expect _).bind fun _ =>
      (keepsDepth_lift (keepsDepth_block h)).bind fun _ => Parse.keepsDepth_pure _
  · exact Parse.keepsDepth_pure _

theorem keepsDepth_operand : (operand expr).KeepsDepth := by
  refine Parse.keepsDepth_current.bind fun t => ?_
  cases t.kind
  case ident => exact Parse.keepsDepth_current.bind fun _ => Parse.keepsDepth_pure _
  case int =>
    refine Parse.keepsDepth_current.bind fun u => ?_
    split
    · exact Parse.keepsDepth_pure _
    · exact keepsDepth_failAt _ _
  case trueWord | falseWord => exact Parse.keepsDepth_current.bind fun _ => Parse.keepsDepth_pure _
  case bang | minus => exact keepsDepth_unary h
  case lparen => exact keepsDepth_grouped h
  case ifWord => exact keepsDepth_conditional h
  all_goals exact keepsDepth_failAt _ _

theorem keepsDepth_operations (power : Power) (left : Expr) :
    (operations expr power left).KeepsDepth := by
  refine Walk.keepsDepth_loop ?_ _
  intro r s x hx
  unfold nextOperation? at hx
  split at hx
  · exact absurd hx nofun
  · split at hx
    · cases hx
      exact Walk.keepsDepth_advance.bind fun _ => keepsDepth_binary h _
    · exact absurd hx nofun

theorem keepsDepth_expressionAbove (power : Power) : (expressionAbove expr power).KeepsDepth :=
  (keepsDepth_operand h).bind fun _ => keepsDepth_operations h _ _

end

end Grammar

/-! ### The levels of an expression -/

open Grammar

theorem keepsDepth_expressionOn (limit levels : Nat) (power : Power) :
    (expressionOn limit levels power).KeepsDepth := by
  induction levels generalizing power with
  | zero => exact Parse.keepsDepth_current.bind fun _ => Parse.keepsDepth_failAt _ _
  | succ levels ih => exact (keepsDepth_expressionAbove ih power).nested

theorem run_expressionWithin (limit : Nat) (power : Power) (s : Session) :
    (expressionWithin limit power).run s = (expressionOn limit (limit - s.depth) power).run s := rfl

section Within

variable {limit levels : Nat} {s : Session}

/-- Where `d` levels are open, as many may be opened as the limit leaves. -/
theorem calls_expressionWithin {d : Nat} (h : limit - d = levels) (m : Nat) :
    (Simulation.equal (·.depth = d) id id).Calls (expressionWithin limit)
      (expressionOn limit levels) m := by
  rintro power s _ ⟨rfl, hs⟩ -
  rw [run_expressionWithin, hs, h]
  exact Simulation.agree_self ((keepsDepth_expressionOn limit levels power s).trans hs)

theorem run_statement_expressionWithin (h : limit - s.depth = levels) :
    (statement (expressionWithin limit)).run s = (statement (expressionOn limit levels)).run s :=
  ((calls_expressionWithin h _).statement ⟨rfl, rfl⟩ (Nat.lt_succ_self _)).eq
    Stmt.eq_of_mapTokens_id

theorem run_statements_expressionWithin {closes : Kind → Bool} {hc : closes .eof}
    (h : limit - s.depth = levels) :
    (statements (expressionWithin limit) closes hc).run s =
      (statements (expressionOn limit levels) closes hc).run s :=
  ((calls_expressionWithin h _).statements ⟨rfl, rfl⟩ (Nat.lt_succ_self _)).eq
    Stmt.eq_of_map_mapTokens_id

/-- An expression fails where the limit is reached, and opens a level otherwise. -/
theorem run_expressionWithin_eq (limit : Nat) (power : Power) (s : Session) :
    (expressionWithin limit power).run s =
      if limit ≤ s.depth then (.error ⟨.tooDeep limit, s.cursor.current.position⟩, s)
      else (Parse.nested (expressionAbove (expressionWithin limit) power)).run s := by
  rw [run_expressionWithin]
  by_cases h : limit ≤ s.depth
  · rw [if_pos h, Nat.sub_eq_zero_of_le h]
    rfl
  · obtain ⟨levels, hl⟩ := Nat.exists_eq_succ_of_ne_zero (Nat.sub_ne_zero_of_lt (Nat.not_le.1 h))
    have hd : limit - s.deeper.depth = levels := by
      rw [Session.depth_deeper]
      omega
    have he := ((calls_expressionWithin hd (s.deeper.cursor.size)).expressionAbove
      (p := power) ⟨rfl, rfl⟩ (Nat.le_refl _)).eq Expr.eq_of_mapTokens_id
    rw [if_neg h, hl, expressionOn, Parse.run_nested_deeper, Parse.run_nested_deeper, he]

end Within

/-! ### A source as a list of statements -/

/-- The statements of a source, with all levels still to be opened. -/
def sourceStatements : Walk (List Stmt) :=
  Grammar.statements (expressionOn maxLevels maxLevels) (· == .eof) Grammar.eof_closes_program

theorem parse_eq_run (source : String) (file : Option String) :
    parse source file = (⟨(sourceStatements.run (Session.ofSource source file)).1⟩,
      (sourceStatements.run (Session.ofSource source file)).2.errors) := by
  have h : (Grammar.statements (expressionWithin maxLevels) (· == .eof)
      Grammar.eof_closes_program).run (Session.ofSource source file) =
      sourceStatements.run (Session.ofSource source file) :=
    run_statements_expressionWithin rfl
  rw [← h]
  rfl

end ExprLang
