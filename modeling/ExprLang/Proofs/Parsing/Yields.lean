import ExprLang.Parser.Parse

/-!
# What is read without a report

`x.Yields s a t` says that `x` reads `a` between the sessions `s` and `t` and has nothing to report,
also not about a part of `a`.  Since no walk takes a report back, a sequence yields something
exactly if its parts do one after the other (`yields_bind`), and so each parse has one lemma that
says what it yields.
-/

namespace ExprLang

namespace Session

def moveTo (s : Session) (c : Cursor) : Session := { s with cursor := c }

def next (s : Session) : Session := s.moveTo s.cursor.advance

def deeper (s : Session) : Session := { s with depth := s.depth + 1 }

def shallower (s : Session) : Session := { s with depth := s.depth - 1 }

def report (s : Session) (d : Diagnostic) : Session := { s with errors := s.errors.push d }

section

variable (s : Session) (c d : Cursor)

@[simp] theorem cursor_moveTo : (s.moveTo c).cursor = c := rfl

@[simp] theorem errors_moveTo : (s.moveTo c).errors = s.errors := rfl

@[simp] theorem depth_moveTo : (s.moveTo c).depth = s.depth := rfl

@[simp] theorem moveTo_moveTo : (s.moveTo c).moveTo d = s.moveTo d := rfl

@[simp] theorem moveTo_cursor : s.moveTo s.cursor = s := rfl

@[simp] theorem cursor_next : s.next.cursor = s.cursor.advance := rfl

@[simp] theorem errors_next : s.next.errors = s.errors := rfl

@[simp] theorem depth_next : s.next.depth = s.depth := rfl

@[simp] theorem cursor_deeper : s.deeper.cursor = s.cursor := rfl

@[simp] theorem errors_deeper : s.deeper.errors = s.errors := rfl

@[simp] theorem depth_deeper : s.deeper.depth = s.depth + 1 := rfl

@[simp] theorem cursor_shallower : s.shallower.cursor = s.cursor := rfl

@[simp] theorem errors_shallower : s.shallower.errors = s.errors := rfl

@[simp] theorem depth_shallower : s.shallower.depth = s.depth - 1 := rfl

@[simp] theorem cursor_report (d : Diagnostic) : (s.report d).cursor = s.cursor := rfl

@[simp] theorem depth_report (d : Diagnostic) : (s.report d).depth = s.depth := rfl

@[simp] theorem toList_errors_report (d : Diagnostic) :
    (s.report d).errors.toList = s.errors.toList ++ [d] := Array.toList_push

theorem leadsTo_report (d : Diagnostic) : s.LeadsTo (s.report d) := ⟨.refl _, by simp⟩

theorem leadsTo_next : s.LeadsTo s.next := ⟨.advance _, List.prefix_rfl⟩

theorem leadsTo_shallower : s.LeadsTo s.shallower := ⟨.refl _, List.prefix_rfl⟩

end

/-- Reports that are there at the end as they were at the beginning were so all the time. -/
theorem LeadsTo.errors_eq {s t u : Session} (h : s.LeadsTo t) (h' : t.LeadsTo u)
    (hu : u.errors = s.errors) : t.errors = s.errors := by
  have h1 := h.reports
  have h2 := h'.reports
  rw [hu] at h2
  have hl : s.errors.toList.length = t.errors.toList.length :=
    Nat.le_antisymm h1.length_le h2.length_le
  exact Array.toList_inj.1 (h1.eq_of_length hl).symm

end Session

/-! ### Walks -/

namespace Walk

variable {α β : Type}

/-- The walk leads from `s` to `t` with the value `a` and reports nothing. -/
def Yields (x : Walk α) (s : Session) (a : α) (t : Session) : Prop :=
  x.run s = (a, t) ∧ t.errors = s.errors

variable {s t u : Session} {a b : α}

@[simp] theorem yields_pure : (pure a : Walk α).Yields s b t ↔ b = a ∧ t = s := by
  constructor
  · rintro ⟨h, -⟩
    cases h
    exact ⟨rfl, rfl⟩
  · rintro ⟨rfl, rfl⟩
    exact ⟨rfl, rfl⟩

theorem yields_bind {x : Walk α} {f : α → Walk β} {b : β} :
    (x >>= f).Yields s b u ↔ ∃ a t, x.Yields s a t ∧ (f a).Yields t b u := by
  constructor
  · rintro ⟨h, hu⟩
    rw [run_bind] at h
    have hl := (f (x.run s).1).leads (x.run s).2
    rw [h] at hl
    have ht := (x.leads s).errors_eq hl hu
    exact ⟨_, _, ⟨rfl, ht⟩, h, hu.trans ht.symm⟩
  · rintro ⟨a, t, ⟨hx, ht⟩, hf, hu⟩
    refine ⟨?_, hu.trans ht⟩
    rw [run_bind, hx]
    exact hf

theorem yields_bind_return {x : Walk α} {f : α → β} {b : β} :
    (do let a ← x; return f a : Walk β).Yields s b t ↔ ∃ a, x.Yields s a t ∧ b = f a := by
  rw [yields_bind]
  constructor
  · rintro ⟨a, _, hx, hb⟩
    obtain ⟨rfl, rfl⟩ := yields_pure.1 hb
    exact ⟨a, hx, rfl⟩
  · rintro ⟨a, hx, rfl⟩
    exact ⟨a, t, hx, yields_pure.2 ⟨rfl, rfl⟩⟩

theorem yields_look {f : Session → α} : (look f).Yields s a t ↔ a = f s ∧ t = s := by
  constructor
  · rintro ⟨h, -⟩
    cases h
    exact ⟨rfl, rfl⟩
  · rintro ⟨rfl, rfl⟩
    exact ⟨rfl, rfl⟩

@[simp] theorem yields_current {a : Token} :
    current.Yields s a t ↔ a = s.cursor.current ∧ t = s := yields_look

@[simp] theorem yields_peek {a : Token} :
    peek.Yields s a t ↔ a = s.cursor.peek ∧ t = s := yields_look

@[simp] theorem yields_depth {a : Nat} : depth.Yields s a t ↔ a = s.depth ∧ t = s := yields_look

@[simp] theorem yields_advance {a : Unit} : advance.Yields s a t ↔ t = s.next := by
  constructor
  · rintro ⟨h, -⟩
    cases h
    rfl
  · rintro rfl
    exact ⟨rfl, rfl⟩

/-- What comes behind a walk that has only one way to go. -/
theorem yields_bind_of_iff {x : Walk α} {f : α → Walk β} {b : β} {a : α}
    (h : ∀ a' t', x.Yields s a' t' ↔ a' = a ∧ t' = t) :
    (x >>= f).Yields s b u ↔ (f a).Yields t b u := by
  rw [yields_bind]
  constructor
  · rintro ⟨a', t', hx, hf⟩
    obtain ⟨rfl, rfl⟩ := (h a' t').1 hx
    exact hf
  · exact fun hf => ⟨a, t, (h a t).2 ⟨rfl, rfl⟩, hf⟩

@[simp] theorem yields_current_bind {f : Token → Walk β} {b : β} :
    (current >>= f).Yields s b u ↔ (f s.cursor.current).Yields s b u :=
  yields_bind_of_iff fun _ _ => yields_current

@[simp] theorem yields_peek_bind {f : Token → Walk β} {b : β} :
    (peek >>= f).Yields s b u ↔ (f s.cursor.peek).Yields s b u :=
  yields_bind_of_iff fun _ _ => yields_peek

@[simp] theorem yields_advance_bind {f : Unit → Walk β} {b : β} :
    (advance >>= f).Yields s b u ↔ (f ()).Yields s.next b u :=
  yields_bind_of_iff fun _ _ => by simp

end Walk

/-! ### Parses -/

namespace Parse

variable {α β : Type}

theorem ext {x y : Parse α} (h : ∀ s, x.run s = y.run s) : x = y :=
  congrArg Parse.mk (Walk.ext h)

theorem run_current_bind {f : Token → Parse α} {s : Session} :
    ((liftM Walk.current : Parse Token) >>= f).run s = (f s.cursor.current).run s := rfl

theorem run_peek_bind {f : Token → Parse α} {s : Session} :
    ((liftM Walk.peek : Parse Token) >>= f).run s = (f s.cursor.peek).run s := rfl

theorem run_advance_bind {f : Unit → Parse α} {s : Session} :
    ((liftM Walk.advance : Parse Unit) >>= f).run s = (f ()).run s.next := rfl

theorem run_nested_deeper (x : Parse α) (s : Session) :
    (nested x).run s = ((x.run s.deeper).1, (x.run s.deeper).2.shallower) := rfl

/-- What comes behind a parse goes on from where the parse leads. -/
theorem leads_bind (x : Parse α) (f : α → Parse β) (s : Session) :
    (x.run s).2.LeadsTo ((x >>= f).run s).2 := by
  rw [run_bind]
  rcases x.run s with ⟨_ | a, t⟩
  · exact .refl _
  · exact (f a).attempt.leads t

/-- Behind a parse that fails, its failure is reported. -/
theorem leads_recorded (x : Parse α) (s : Session) :
    (x.run s).2.LeadsTo ((recorded x).run s).2 := by
  rw [run_recorded]
  rcases x.run s with ⟨d | a, t⟩
  · exact t.leadsTo_report d
  · exact .refl _

/-- A sequence does not fail if its parts do not, one after the other. -/
theorem run_bind_eq_ok_iff {x : Parse α} {f : α → Parse β} {s u : Session} {b : β} :
    (x >>= f).run s = (.ok b, u) ↔ ∃ a t, x.run s = (.ok a, t) ∧ (f a).run t = (.ok b, u) := by
  rw [run_bind]
  rcases x.run s with ⟨d | a, t⟩
  · simp
  · constructor
    · exact fun h => ⟨a, t, rfl, h⟩
    · rintro ⟨_, _, h, hf⟩
      cases h
      exact hf

theorem run_nested_eq_ok_iff {x : Parse α} {s u : Session} {a : α} :
    (nested x).run s = (.ok a, u) ↔ ∃ t, x.run s.deeper = (.ok a, t) ∧ u = t.shallower := by
  rw [run_nested_deeper]
  rcases x.run s.deeper with ⟨r, t⟩
  constructor
  · intro h
    cases h
    exact ⟨t, rfl, rfl⟩
  · rintro ⟨_, h, rfl⟩
    cases h
    rfl

/-- The parse leads from `s` to `t`, reads `a` and reports nothing. -/
def Yields (x : Parse α) (s : Session) (a : α) (t : Session) : Prop :=
  x.run s = (.ok a, t) ∧ t.errors = s.errors

variable {s t u : Session} {a b : α}

@[simp] theorem yields_pure : (pure a : Parse α).Yields s b t ↔ b = a ∧ t = s := by
  constructor
  · rintro ⟨h, -⟩
    cases h
    exact ⟨rfl, rfl⟩
  · rintro ⟨rfl, rfl⟩
    exact ⟨rfl, rfl⟩

theorem yields_bind {x : Parse α} {f : α → Parse β} {b : β} :
    (x >>= f).Yields s b u ↔ ∃ a t, x.Yields s a t ∧ (f a).Yields t b u := by
  constructor
  · rintro ⟨h, hu⟩
    obtain ⟨a, t, hx, hf⟩ := run_bind_eq_ok_iff.1 h
    have hfirst := x.attempt.leads s
    have hrest := (f a).attempt.leads t
    rw [run_attempt, hx] at hfirst
    rw [run_attempt, hf] at hrest
    have ht := hfirst.errors_eq hrest hu
    exact ⟨a, t, ⟨hx, ht⟩, hf, hu.trans ht.symm⟩
  · rintro ⟨a, t, ⟨hx, ht⟩, hf, hu⟩
    exact ⟨run_bind_eq_ok_iff.2 ⟨a, t, hx, hf⟩, hu.trans ht⟩

theorem yields_bind_return {x : Parse α} {f : α → β} {b : β} :
    (do let a ← x; return f a : Parse β).Yields s b t ↔ ∃ a, x.Yields s a t ∧ b = f a := by
  rw [yields_bind]
  constructor
  · rintro ⟨a, _, hx, hb⟩
    obtain ⟨rfl, rfl⟩ := yields_pure.1 hb
    exact ⟨a, hx, rfl⟩
  · rintro ⟨a, hx, rfl⟩
    exact ⟨a, t, hx, yields_pure.2 ⟨rfl, rfl⟩⟩

@[simp] theorem yields_lift {x : Walk α} : (liftM x : Parse α).Yields s a t ↔ x.Yields s a t := by
  unfold Yields Walk.Yields
  rw [run_lift]
  simp only [Except.ok.injEq, Prod.ext_iff]

@[simp] theorem yields_failAt {t' : Token} {c : Cause} :
    ¬ (failAt t' c : Parse α).Yields s a t := by
  rintro ⟨h, -⟩
  exact absurd h (by simp)

@[simp] theorem yields_expect {k : Kind} {a : Unit} :
    (expect k).Yields s a t ↔ s.cursor.peek.kind = k ∧ t = s.next := by
  unfold Yields
  rw [run_expect]
  constructor
  · rintro ⟨h, -⟩
    split at h
    · cases h
      exact ⟨‹_›, rfl⟩
    · exact absurd h (by simp)
  · rintro ⟨hk, rfl⟩
    rw [if_pos hk]
    exact ⟨rfl, rfl⟩

theorem yields_lift_bind {x : Walk α} {f : α → Parse β} {b : β} {a : α}
    (h : ∀ a' t', x.Yields s a' t' ↔ a' = a ∧ t' = t) :
    ((liftM x : Parse α) >>= f).Yields s b u ↔ (f a).Yields t b u := by
  rw [yields_bind]
  constructor
  · rintro ⟨a', t', hx, hf⟩
    obtain ⟨rfl, rfl⟩ := (h a' t').1 (yields_lift.1 hx)
    exact hf
  · exact fun hf => ⟨a, t, yields_lift.2 ((h a t).2 ⟨rfl, rfl⟩), hf⟩

@[simp] theorem yields_current_bind {f : Token → Parse β} {b : β} :
    ((liftM Walk.current : Parse Token) >>= f).Yields s b u ↔ (f s.cursor.current).Yields s b u :=
  yields_lift_bind fun _ _ => Walk.yields_current

@[simp] theorem yields_peek_bind {f : Token → Parse β} {b : β} :
    ((liftM Walk.peek : Parse Token) >>= f).Yields s b u ↔ (f s.cursor.peek).Yields s b u :=
  yields_lift_bind fun _ _ => Walk.yields_peek

@[simp] theorem yields_advance_bind {f : Unit → Parse β} {b : β} :
    ((liftM Walk.advance : Parse Unit) >>= f).Yields s b u ↔ (f ()).Yields s.next b u :=
  yields_lift_bind fun _ _ => by simp

@[simp] theorem yields_expect_bind {k : Kind} {f : Unit → Parse β} {b : β} :
    (expect k >>= f).Yields s b u ↔ s.cursor.peek.kind = k ∧ (f ()).Yields s.next b u := by
  rw [yields_bind]
  constructor
  · rintro ⟨_, _, hx, hf⟩
    obtain ⟨hk, rfl⟩ := yields_expect.1 hx
    exact ⟨hk, hf⟩
  · exact fun ⟨hk, hf⟩ => ⟨(), _, yields_expect.2 ⟨hk, rfl⟩, hf⟩

theorem yields_nested {x : Parse α} :
    (nested x).Yields s a t ↔ ∃ t', x.Yields s.deeper a t' ∧ t = t'.shallower := by
  unfold Yields
  rw [run_nested_eq_ok_iff]
  constructor
  · rintro ⟨⟨t', h, rfl⟩, ht⟩
    exact ⟨t', ⟨h, ht⟩, rfl⟩
  · rintro ⟨t', ⟨h, ht⟩, rfl⟩
    exact ⟨⟨t', h, rfl⟩, ht⟩

theorem yields_recorded {x : Parse α} {o : Option α} :
    (recorded x).Yields s o t ↔ ∃ a, o = some a ∧ x.Yields s a t := by
  unfold Yields Walk.Yields
  rw [run_recorded]
  have hx := x.attempt.leads s
  rw [run_attempt] at hx
  rcases hr : x.run s with ⟨d | a, t'⟩
  · simp only [hr] at hx ⊢
    have := hx.reports.length_le
    constructor
    · rintro ⟨h, ht⟩
      cases h
      -- a report more than before
      have hs := congrArg Array.size ht
      simp only [Array.length_toList, Array.size_push] at this hs
      omega
    · rintro ⟨a, -, h, -⟩
      exact absurd h (by simp)
  · constructor
    · rintro ⟨h, ht⟩
      cases h
      exact ⟨a, rfl, rfl, ht⟩
    · rintro ⟨a', rfl, h, ht⟩
      cases h
      exact ⟨rfl, ht⟩

end Parse

end ExprLang
