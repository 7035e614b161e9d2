import ExprLang.Diagnostic
import ExprLang.Parser.Cursor

/-!
# Walks

A `Session` is a parse under way.  A `Walk` acts on it and yields a value; it can report, enter and
leave levels, and move the cursor, but only forward, and what was reported before it stays
(`Session.LeadsTo`).  `Walk.loop` repeats a walk as long as there is a next one, and ends because
every round has to use up some of the source.
-/

namespace ExprLang

/-- A parse under way: where it is, what it has reported, oldest first, and how many levels of
expressions are open. -/
structure Session where
  cursor : Cursor
  errors : Array Diagnostic
  depth : Nat
  deriving Inhabited

def Session.ofSource (source : String) (file : Option String) : Session :=
  ⟨Cursor.ofScanner (Scanner.ofSource source file), #[], 0⟩

/-- What may become of a session: its cursor moves forward, and more is reported. -/
structure Session.LeadsTo (s t : Session) : Prop where
  ahead : s.cursor.Ahead t.cursor
  reports : s.errors.toList <+: t.errors.toList

namespace Session.LeadsTo

theorem refl (s : Session) : s.LeadsTo s := ⟨.refl _, List.prefix_rfl⟩

theorem trans {s t u : Session} (h : s.LeadsTo t) (h' : t.LeadsTo u) : s.LeadsTo u :=
  ⟨h.ahead.trans h'.ahead, h.reports.trans h'.reports⟩

end Session.LeadsTo

/-- An action on a session: it does not move the cursor back and does not take a report back. -/
structure Walk (α : Type) where
  run : Session → α × Session
  leads : ∀ s : Session, s.LeadsTo (run s).2

namespace Walk

variable {α β : Type}

theorem ahead (x : Walk α) (s : Session) : s.cursor.Ahead (x.run s).2.cursor := (x.leads s).ahead

theorem ext {x y : Walk α} (h : ∀ s, x.run s = y.run s) : x = y := by
  cases x
  cases y
  simp only [mk.injEq]
  exact funext h

instance : Monad Walk where
  pure a := ⟨fun s => (a, s), fun _ => .refl _⟩
  bind x f :=
    ⟨fun s => let r := x.run s; (f r.1).run r.2, fun s => (x.leads s).trans ((f _).leads _)⟩

@[simp] theorem run_pure (a : α) (s : Session) : (pure a : Walk α).run s = (a, s) := rfl

@[simp] theorem run_bind (x : Walk α) (f : α → Walk β) (s : Session) :
    (x >>= f).run s = (f (x.run s).1).run (x.run s).2 := rfl

instance : LawfulMonad Walk :=
  LawfulMonad.mk' Walk (fun _ => rfl) (fun _ _ => rfl) (fun _ _ _ => rfl)

def look (f : Session → α) : Walk α := ⟨fun s => (f s, s), fun _ => .refl _⟩

def current : Walk Token := look fun s => s.cursor.current

def peek : Walk Token := look fun s => s.cursor.peek

def depth : Walk Nat := look Session.depth

def advance : Walk Unit :=
  ⟨fun s => ((), { s with cursor := s.cursor.advance }), fun _ => ⟨.advance _, List.prefix_rfl⟩⟩

def record (d : Diagnostic) : Walk Unit :=
  ⟨fun s => ((), { s with errors := s.errors.push d }), fun _ => ⟨.refl _, by simp⟩⟩

def enterLevel : Walk Unit :=
  ⟨fun s => ((), { s with depth := s.depth + 1 }), fun _ => ⟨.refl _, List.prefix_rfl⟩⟩

/-- Closes a level; where none is open, nothing happens.  A debug build would assert that one is
open: what is described here is the release build. -/
def leaveLevel : Walk Unit :=
  ⟨fun s => ((), { s with depth := s.depth - 1 }), fun _ => ⟨.refl _, List.prefix_rfl⟩⟩

@[simp] theorem run_look (f : Session → α) (s : Session) : (look f).run s = (f s, s) := rfl

@[simp] theorem run_current (s : Session) : current.run s = (s.cursor.current, s) := rfl

@[simp] theorem run_peek (s : Session) : peek.run s = (s.cursor.peek, s) := rfl

@[simp] theorem run_depth (s : Session) : depth.run s = (s.depth, s) := rfl

@[simp] theorem run_advance (s : Session) :
    advance.run s = ((), { s with cursor := s.cursor.advance }) := rfl

@[simp] theorem run_record (d : Diagnostic) (s : Session) :
    (record d).run s = ((), { s with errors := s.errors.push d }) := rfl

@[simp] theorem run_enterLevel (s : Session) :
    enterLevel.run s = ((), { s with depth := s.depth + 1 }) := rfl

@[simp] theorem run_leaveLevel (s : Session) :
    leaveLevel.run s = ((), { s with depth := s.depth - 1 }) := rfl

/-! ### Repetition -/

/-- Every next walk uses up some of the source. -/
def UsesUp (next? : α → Session → Option (Walk α)) : Prop :=
  ∀ a s x, next? a s = some x → (x.run s).2.cursor.size < s.cursor.size

/-- From the value `a`, runs walks as long as there is a next one. -/
def loopRun (next? : α → Session → Option (Walk α)) (uses : UsesUp next?) (a : α) (s : Session) :
    α × Session :=
  match _ : next? a s with
  | none => (a, s)
  | some x => loopRun next? uses (x.run s).1 (x.run s).2
termination_by s.cursor.size
decreasing_by exact uses a s x ‹_›

section Loop

variable {next? : α → Session → Option (Walk α)} {uses : UsesUp next?} {a : α} {s : Session}

theorem loopRun_none (h : next? a s = none) : loopRun next? uses a s = (a, s) := by
  rw [loopRun]
  split
  · rfl
  · rename_i h'
    rw [h] at h'
    exact absurd h' nofun

theorem loopRun_some {x : Walk α} (h : next? a s = some x) :
    loopRun next? uses a s = loopRun next? uses (x.run s).1 (x.run s).2 := by
  rw [loopRun]
  split
  · rename_i h'
    rw [h] at h'
    exact absurd h' nofun
  · rename_i h'
    rw [h] at h'
    cases h'
    rfl

theorem leads_loopRun : s.LeadsTo (loopRun next? uses a s).2 := by
  fun_induction loopRun next? uses a s with
  | case1 => exact .refl _
  | case2 a s x h ih => exact (x.leads s).trans ih

end Loop

def loop (next? : α → Session → Option (Walk α)) (uses : UsesUp next?) (a : α) : Walk α :=
  ⟨loopRun next? uses a, fun _ => leads_loopRun⟩

@[simp] theorem run_loop (next? : α → Session → Option (Walk α)) (uses : UsesUp next?) (a : α)
    (s : Session) : (loop next? uses a).run s = loopRun next? uses a s := rfl

end Walk

end ExprLang
