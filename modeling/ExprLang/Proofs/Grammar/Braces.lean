import ExprLang.Proofs.Grammar.Derives

/-!
# Braces in the grammar

Only at the end of the source may a block lack its closing brace.  So a text of the grammar never
has more closing braces than opening ones, and if it has as many, then an expression or a block in
it ends with a token of its own: it does not reach over a semicolon (`Derives.braces`).
-/

namespace ExprLang

/-- What a token of this kind adds to the number of open blocks. -/
def Kind.opens : Kind → Int
  | lbrace => 1
  | rbrace => -1
  | _ => 0

/-- How many blocks are open behind these tokens. -/
def opened : List Token → Int
  | [] => 0
  | t :: ts => t.kind.opens + opened ts

theorem opened_append (ts us : List Token) : opened (ts ++ us) = opened ts + opened us := by
  induction ts with
  | nil => exact (Int.zero_add _).symm
  | cons t ts ih => rw [List.cons_append, opened, opened, ih, Int.add_assoc]

theorem opened_cons_of_kind {t : Token} {k : Kind} (hk : t.kind = k) (ts : List Token) :
    opened (t :: ts) = k.opens + opened ts := by
  rw [opened, hk]

/-- What stands between two tokens that open and close as much counts alone. -/
theorem opened_enclosed {l r : Token} {k k' : Kind} (hl : l.kind = k) (hr : r.kind = k')
    (h : k.opens + k'.opens = 0) (us : List Token) : opened (l :: us ++ [r]) = opened us := by
  rw [List.cons_append, opened_cons_of_kind hl, opened_append, opened_cons_of_kind hr, opened]
  omega

/-- There are no blocks open where there are as many closing braces as opening ones. -/
theorem opened_eq (ts : List Token) : opened ts =
    ts.countP (·.kind = .lbrace) - ts.countP (·.kind = .rbrace) := by
  induction ts with
  | nil => rfl
  | cons t ts ih =>
    rw [opened, ih, List.countP_cons, List.countP_cons]
    cases t.kind <;> simp [Kind.opens] <;> omega

namespace Form

/-- Expressions and blocks; a semicolon stands behind them at most. -/
def isInner : Form → Bool
  | expr _ _ | block _ => true
  | stmt _ | stmts _ => false

end Form

def EndsInside (ts : List Token) : Prop := ∃ vs u, ts = vs ++ [u] ∧ u.kind ≠ .semicolon

theorem EndsInside.append {ts : List Token} (h : EndsInside ts) (us : List Token) :
    EndsInside (us ++ ts) := by
  obtain ⟨vs, u, rfl, hu⟩ := h
  exact ⟨us ++ vs, u, (List.append_assoc ..).symm, hu⟩

theorem EndsInside.cons {ts : List Token} (h : EndsInside ts) (t : Token) :
    EndsInside (t :: ts) := h.append [t]

theorem endsInside_singleton {u : Token} {k : Kind} (hk : u.kind = k) (h : k ≠ .semicolon) :
    EndsInside [u] := ⟨[], u, rfl, hk ▸ h⟩

theorem Ends.braces {mid after : List Token} (h : Ends mid after) :
    ∃ us, mid = us ++ after ∧ opened us = 0 := by
  cases h with
  | @semicolon t _ ht => exact ⟨[t], rfl, opened_cons_of_kind ht []⟩
  | bare => exact ⟨[], rfl, rfl⟩

/-- The tokens of a text of the grammar leave no block closed that they did not open.  If they leave
none open either, then an expression or a block ends with a token that is no semicolon. -/
theorem Derives.braces {f : Form} {before after : List Token} {n : Nat}
    (h : Derives f before n after) :
    ∃ us, before = us ++ after ∧ 0 ≤ opened us ∧
      (f.isInner → opened us = 0 → EndsInside us) := by
  induction h with
  | @ident t _ ht | @number t _ _ ht | @truth t _ ht | @falsity t _ ht =>
    have ho : opened [t] = 0 := opened_cons_of_kind ht []
    exact ⟨[t], rfl, by omega, fun _ _ => endsInside_singleton ht nofun⟩
  | @grouped l r _ _ _ _ hl hr _ ih =>
    obtain ⟨us, rfl, hus, -⟩ := ih
    have ho := opened_enclosed hl hr rfl us
    exact ⟨l :: us ++ [r], by simp, by omega, fun _ _ => (endsInside_singleton hr nofun).append _⟩
  | @conditional w l r _ _ _ _ _ _ _ hw hl hr _ _ ihc ihb =>
    obtain ⟨us, rfl, hus, -⟩ := ihc
    obtain ⟨vs, rfl, hvs, hend⟩ := ihb
    have ho : opened (w :: l :: us ++ r :: vs) = opened us + opened vs := by
      rw [opened_append, opened_cons_of_kind hw, opened_cons_of_kind hl, opened_cons_of_kind hr]
      simp [Kind.opens]
    exact ⟨w :: l :: us ++ r :: vs, by simp, by omega, fun _ h0 =>
      ((hend rfl (by omega)).cons r).append _⟩
  | @conditionalElse w l r s _ _ _ _ _ _ _ _ _ _ hw hl hr hs _ _ _ ihc ihb iha =>
    obtain ⟨us, rfl, hus, -⟩ := ihc
    obtain ⟨vs, rfl, hvs, -⟩ := ihb
    obtain ⟨ws, rfl, hws, hend⟩ := iha
    have ho : opened (w :: l :: us ++ r :: vs ++ s :: ws) = opened us + opened vs + opened ws := by
      rw [opened_append, opened_append, opened_cons_of_kind hw, opened_cons_of_kind hl,
        opened_cons_of_kind hr, opened_cons_of_kind hs]
      simp [Kind.opens]
    exact ⟨w :: l :: us ++ r :: vs ++ s :: ws, by simp, by omega, fun _ h0 =>
      ((hend rfl (by omega)).cons s).append _⟩
  | @unary op _ _ _ _ hop _ ih =>
    obtain ⟨us, rfl, hus, hend⟩ := ih
    have ho : opened (op :: us) = opened us := by
      rcases hop with hop | hop <;> simp [opened_cons_of_kind hop, Kind.opens]
    exact ⟨op :: us, rfl, by omega, fun _ h0 => (hend rfl (by omega)).cons op⟩
  | @binary op _ _ _ _ _ _ _ _ hop _ _ ihl ihr =>
    obtain ⟨us, rfl, hus, -⟩ := ihl
    obtain ⟨vs, rfl, hvs, hend⟩ := ihr
    have ho : opened (us ++ op :: vs) = opened us + opened vs := by
      have hop0 : op.kind.opens = 0 := by
        generalize op.kind = k at hop
        cases hop <;> rfl
      rw [opened_append, opened, hop0, Int.zero_add]
    exact ⟨us ++ op :: vs, by simp, by omega, fun _ h0 => ((hend rfl (by omega)).cons op).append us⟩
  | looser _ _ ih => exact ih
  | @binding w x a _ _ _ _ _ hw hx ha _ he ih =>
    obtain ⟨us, rfl, hus, -⟩ := ih
    obtain ⟨vs, rfl, hvs⟩ := he.braces
    refine ⟨w :: x :: a :: us ++ vs, by simp, ?_, nofun⟩
    rw [opened_append, opened_cons_of_kind hw, opened_cons_of_kind hx, opened_cons_of_kind ha]
    simp only [Kind.opens]
    omega
  | @result w _ _ _ _ _ hw _ he ih =>
    obtain ⟨us, rfl, hus, -⟩ := ih
    obtain ⟨vs, rfl, hvs⟩ := he.braces
    refine ⟨w :: us ++ vs, by simp, ?_, nofun⟩
    rw [opened_append, opened_cons_of_kind hw]
    simp only [Kind.opens]
    omega
  | expression _ he ih =>
    obtain ⟨us, hbefore, hus, -⟩ := ih
    obtain ⟨vs, rfl, hvs⟩ := he.braces
    refine ⟨us ++ vs, by rw [hbefore, List.append_assoc], ?_, nofun⟩
    rw [opened_append]
    omega
  | nil => exact ⟨[], rfl, Int.le_refl 0, nofun⟩
  | cons _ _ ihst ihss =>
    obtain ⟨us, rfl, hus, -⟩ := ihst
    obtain ⟨vs, rfl, hvs, -⟩ := ihss
    refine ⟨us ++ vs, by simp, ?_, nofun⟩
    rw [opened_append]
    omega
  | @closed l r _ _ _ _ hl hr _ ih =>
    obtain ⟨us, rfl, hus, -⟩ := ih
    have ho := opened_enclosed hl hr rfl us
    exact ⟨l :: us ++ [r], by simp, by omega, fun _ _ => (endsInside_singleton hr nofun).append _⟩
  | @unclosed l _ before _ hl _ ih =>
    obtain ⟨us, rfl, hus, -⟩ := ih
    refine ⟨l :: us, by simp, ?_, fun _ h0 => ?_⟩
    · rw [opened_cons_of_kind hl]
      simp only [Kind.opens]
      omega
    · rw [opened_cons_of_kind hl] at h0
      simp only [Kind.opens] at h0
      omega

end ExprLang
