import ExprLang.Parser.Walk
import ExprLang.Token

/-!
# Parses

A `Parse` is a walk that may fail with a diagnostic.  What it has moved or reported before it fails
stays.  `Parse.recorded` turns a failure into a report.
-/

namespace ExprLang

/-- A walk that may fail. -/
structure Parse (α : Type) where
  attempt : Walk (Except Diagnostic α)

namespace Parse

variable {α β : Type}

/-- What a parse makes of a session, and what it yields or fails with. -/
def run (x : Parse α) (s : Session) : Except Diagnostic α × Session := x.attempt.run s

instance : Monad Parse where
  pure a := ⟨pure (.ok a)⟩
  bind x f := ⟨do
    match ← x.attempt with
    | .ok a => (f a).attempt
    | .error d => pure (.error d)⟩

/-- A walk is a parse that does not fail. -/
instance : MonadLift Walk Parse where
  monadLift x := ⟨do return .ok (← x)⟩

@[simp] theorem run_mk (x : Walk (Except Diagnostic α)) (s : Session) :
    (mk x).run s = x.run s := rfl

@[simp] theorem run_attempt (x : Parse α) (s : Session) : x.attempt.run s = x.run s := rfl

@[simp] theorem run_pure (a : α) (s : Session) : (pure a : Parse α).run s = (.ok a, s) := rfl

@[simp] theorem run_bind (x : Parse α) (f : α → Parse β) (s : Session) :
    (x >>= f).run s =
      match x.run s with
      | (.ok a, s') => (f a).run s'
      | (.error d, s') => (.error d, s') := by
  change (match (x.run s).1 with
    | .ok a => (f a).attempt
    | .error d => pure (.error d)).run (x.run s).2 = _
  rcases x.run s with ⟨_ | _, s'⟩ <;> rfl

@[simp] theorem run_lift (x : Walk α) (s : Session) :
    (liftM x : Parse α).run s = (.ok (x.run s).1, (x.run s).2) := rfl

def failAt (t : Token) (cause : Cause) : Parse α := ⟨pure (.error ⟨cause, t.position⟩)⟩

@[simp] theorem run_failAt (t : Token) (c : Cause) (s : Session) :
    (failAt t c : Parse α).run s = (.error ⟨c, t.position⟩, s) := rfl

/-- Steps onto a token of kind `k`; if another one follows, fails there and stays. -/
def expect (k : Kind) : Parse Unit := do
  let t ← Walk.peek
  if t.kind = k then Walk.advance else failAt t (.unexpected k t.kind)

/-- Opens a level, unless `limit` of them are open already. -/
def enter (limit : Nat) : Parse Unit := do
  if limit ≤ (← Walk.depth) then failAt (← Walk.current) (.tooDeep limit) else Walk.enterLevel

/-- Acts one level deeper, and comes back also when it fails. -/
def nested (x : Parse α) : Parse α := ⟨do
  Walk.enterLevel
  let r ← x.attempt
  Walk.leaveLevel
  return r⟩

/-- Reports a failure and yields nothing then. -/
def recorded (x : Parse α) : Walk (Option α) := do
  match ← x.attempt with
  | .ok a => return some a
  | .error d =>
    Walk.record d
    return none

/-! ### What they make of a session -/

theorem run_expect (k : Kind) (s : Session) :
    (expect k).run s =
      if s.cursor.peek.kind = k then (.ok (), { s with cursor := s.cursor.advance })
      else (.error ⟨.unexpected k s.cursor.peek.kind, s.cursor.peek.position⟩, s) := by
  simp only [expect, run_bind, run_lift, Walk.run_peek]
  split <;> rfl

theorem run_nested (x : Parse α) (s : Session) :
    (nested x).run s =
      let r := x.run { s with depth := s.depth + 1 }
      (r.1, { r.2 with depth := r.2.depth - 1 }) := rfl

theorem run_recorded (x : Parse α) (s : Session) :
    (recorded x).run s =
      match x.run s with
      | (.ok a, s') => (some a, s')
      | (.error d, s') => (none, { s' with errors := s'.errors.push d }) := by
  simp only [recorded, Walk.run_bind, run_attempt]
  rcases x.run s with ⟨_ | _, s'⟩ <;> rfl

end Parse

end ExprLang
