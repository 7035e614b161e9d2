import ExprLang.Proofs.Parsing.Depth

/-!
# Without a limit

`unbounded note` reads expressions as `expressionWithin` does, except that it opens any number of
levels; before it opens one it does `note`.  With `noteExcess limit` it leaves a mark in the reports
wherever `limit` levels are open already.  Since expressions call one another only behind a token,
what is left of the source bounds how deep they nest, and `unbounded` satisfies the equation of an
expression that is never refused a level (`unbounded_eq`).
-/

namespace ExprLang

open Parse Walk Grammar

/-- An expression that may open `fuel` levels, with a note at each. -/
def unboundedOn (note : Walk Unit) : (fuel : Nat) → Power → Parse Expr
  | 0, _ => do failAt (← Walk.current) (.tooDeep 0)
  | fuel + 1, power => do
    note
    nested (expressionAbove (unboundedOn note fuel) power)

/-- An expression that may open all levels that the source has tokens for. -/
def unbounded (note : Walk Unit) (power : Power) : Parse Expr := do
  unboundedOn note ((← look (·.cursor.size)) + 1) power

/-- Reports the current token if `limit` levels are open. -/
def noteExcess (limit : Nat) : Walk Unit := do
  if limit ≤ (← depth) then record ⟨.tooDeep limit, (← current).position⟩

/-- The result of reading a source in which any number of levels may be open. -/
def parseUnbounded (note : Walk Unit) (source : String) (file : Option String) :
    Program × Array Diagnostic :=
  let r := (program (unbounded note)).run (Session.ofSource source file)
  (r.1, r.2.errors)

def parseFree (source : String) (file : Option String) : Program × Array Diagnostic :=
  parseUnbounded (pure ()) source file

/-- The result of reading a source without a limit, but with a mark wherever a level is opened that
`parse` would refuse. -/
def parseMarked (source : String) (file : Option String) : Program × Array Diagnostic :=
  parseUnbounded (noteExcess maxLevels) source file

def Diagnostic.isExcess (d : Diagnostic) : Bool :=
  match d.cause with
  | .tooDeep _ => true
  | _ => false

theorem run_noteExcess (limit : Nat) (s : Session) :
    (noteExcess limit).run s =
      ((), if limit ≤ s.depth then s.report ⟨.tooDeep limit, s.cursor.current.position⟩
        else s) := by
  rw [noteExcess, Walk.run_bind, run_depth]
  by_cases h : limit ≤ s.depth
  · rw [if_pos h, if_pos h]
    rfl
  · rw [if_neg h, if_neg h]
    rfl

/-! ### There is always a level left -/

section

open Simulation

variable {note : Walk Unit}

theorem run_unbounded (note : Walk Unit) (power : Power) (s : Session) :
    (unbounded note power).run s = (unboundedOn note (s.cursor.size + 1) power).run s := by
  rw [unbounded, Parse.run_bind, run_lift, run_look]

/-- How many levels may be opened does not matter if they are at least what is left of the
source. -/
theorem calls_unboundedOn {m fuel fuel' : Nat} (h : m ≤ fuel) (h' : m ≤ fuel') :
    identity.Calls (unboundedOn note fuel) (unboundedOn note fuel') m := by
  -- inside an expression the calls are behind a token, where less than `m` is left
  induction m generalizing fuel fuel' with
  | zero => exact fun _ _ _ _ hm => absurd hm (Nat.not_lt_zero _)
  | succ m ih =>
    rintro power s _ ⟨rfl, -⟩ hm
    obtain ⟨fuel, rfl⟩ := Nat.exists_eq_add_one_of_ne_zero (Nat.ne_zero_of_lt h)
    obtain ⟨fuel', rfl⟩ := Nat.exists_eq_add_one_of_ne_zero (Nat.ne_zero_of_lt h')
    rw [unboundedOn, unboundedOn]
    refine AgreeWalk.bind (V := Eq) (.sync rfl (sync_identity _)) fun _ _ u v _ hu ha => ?_
    refine agree_nested (fun hs => ⟨hs.1 ▸ rfl, trivial⟩) id ?_
    refine (ih (Nat.le_of_succ_le_succ h) (Nat.le_of_succ_le_succ h')).expressionAbove
      ⟨hu.1 ▸ rfl, trivial⟩ ?_
    exact Nat.le_trans ha.size_le (Nat.le_of_lt_succ hm)

theorem calls_unbounded (note : Walk Unit) (m : Nat) :
    identity.Calls (unbounded note) (unboundedOn note m) m := by
  rintro power s _ ⟨rfl, -⟩ hm
  rw [run_unbounded]
  exact calls_unboundedOn (Nat.le_refl _) hm power s s (sync_identity s) (Nat.lt_succ_self _)

/-- An expression that is never refused a level. -/
theorem unbounded_eq (note : Walk Unit) (power : Power) (s : Session) :
    (unbounded note power).run s =
      (do note; nested (expressionAbove (unbounded note) power) : Parse Expr).run s := by
  have h : identity.Agree identity.SameExpr
      ((do note; nested (expressionAbove (unbounded note) power) : Parse Expr).run s)
      ((unboundedOn note (s.cursor.size + 1) power).run s) := by
    rw [unboundedOn]
    refine AgreeWalk.bind (V := Eq) (.sync rfl (sync_identity _)) fun _ _ u v _ hu ha => ?_
    refine agree_nested (fun hs => ⟨hs.1 ▸ rfl, trivial⟩) id ?_
    exact (calls_unbounded note s.cursor.size).expressionAbove ⟨hu.1 ▸ rfl, trivial⟩ ha.size_le
  rw [run_unbounded]
  exact (h.eq Expr.eq_of_mapTokens_id).symm

end

/-- The operand of a sign is on the second level. -/
example : (parseUnbounded (noteExcess 1) "- a" none).2.toList =
    [⟨.tooDeep 1, ⟨2, defaultFile⟩⟩] := by decide +kernel

end ExprLang
