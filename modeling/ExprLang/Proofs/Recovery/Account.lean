import ExprLang.Parser
import ExprLang.Proofs.Parsing.Yields

/-!
# An account of the tokens

Behind every token that a parse has passed there is one of two facts: a form of the grammar had use
for it, or a statement failed on it and was reported.  `Account` writes them down token by token,
with the reports in their order, and `Reached` says that a session has come this far with no other
reports.
-/

namespace ExprLang

/-- The `k`-th token from a cursor on; the current one is the token `0`. -/
def Cursor.token (c : Cursor) (k : Nat) : Token := (c.after k).current

theorem Cursor.token_after (c : Cursor) (i j : Nat) : (c.after i).token j = c.token (i + j) := by
  rw [token, token, after_add]

/-- Whether some form of the grammar has use for a token; of the numbers, only those of the language
are of use. -/
def Kind.isUsable (literal : String) : Kind → Bool
  | illegal | comma | fnWord => false
  | int => (Decimal.ofLiteral? literal).isSome
  | _ => true

def Token.Usable (t : Token) : Prop := t.kind.isUsable t.literal

theorem Token.usable_of_kind {t : Token} {k : Kind} (hk : t.kind = k) (h : k.isUsable t.literal) :
    t.Usable := by
  rw [Usable, hk]
  exact h

theorem Token.usable_of_operator {t : Token} (h : t.kind.operator?.isSome) : t.Usable := by
  unfold Usable
  revert h
  cases t.kind <;> first | exact fun _ => rfl | exact nofun

/-- What is asked for by `expect`. -/
def Kind.isExpected : Kind → Bool
  | ident | assign | lparen | rparen | lbrace => true
  | _ => false

section

variable (limit : Nat) (c : Cursor)

/-- The diagnostic says what is wrong where a statement failed on the token `k`: with this token, or
with the one behind it, which is not the expected one. -/
inductive Blames (k : Nat) : Diagnostic → Prop
  | noOperand (h : ∀ expr, Grammar.operand? expr (c.token k).kind = none) :
      Blames k ⟨.noOperand (c.token k).kind, (c.token k).position⟩
  | badNumber (hk : (c.token k).kind = .int) (h : Decimal.ofLiteral? (c.token k).literal = none) :
      Blames k ⟨.badNumber (c.token k).literal, (c.token k).position⟩
  | tooDeep : Blames k ⟨.tooDeep limit, (c.token k).position⟩
  | unexpected {e : Kind} (hu : (c.token k).Usable) (he : e.isExpected)
      (hk : (c.token (k + 1)).kind ≠ e) :
      Blames k ⟨.unexpected e (c.token (k + 1)).kind, (c.token (k + 1)).position⟩

/-- The tokens from `i` on that are passed when a parse is on the token `j`, and the reports that
were made on the way: each token was of use, or a statement failed on it. -/
inductive Account (i : Nat) : Nat → List Diagnostic → Prop
  | start : Account i i []
  | use {j : Nat} {ds : List Diagnostic} (h : Account i j ds) (hu : (c.token j).Usable) :
      Account i (j + 1) ds
  | blame {j : Nat} {d : Diagnostic} {ds : List Diagnostic} (h : Account i j ds)
      (hb : Blames limit c j d) : Account i (j + 1) (ds ++ [d])

end

variable {limit i j k : Nat} {c : Cursor} {d : Diagnostic} {ds : List Diagnostic}

/-- A failure shows on the token where it left off or on the one behind it. -/
theorem Blames.position (h : Blames limit c k d) :
    d.position = (c.token k).position ∨ d.position = (c.token (k + 1)).position := by
  cases h with
  | noOperand | badNumber | tooDeep => exact .inl rfl
  | unexpected => exact .inr rfl

theorem Account.le (h : Account limit c i j ds) : i ≤ j := by
  induction h with
  | start => exact Nat.le_refl _
  | use _ _ ih | blame _ _ ih => exact Nat.le_succ_of_le ih

/-- Every report on the way belongs to a token that was passed. -/
theorem Account.exists_blames (h : Account limit c i j ds) (hd : d ∈ ds) :
    ∃ k, i ≤ k ∧ k < j ∧ Blames limit c k d := by
  induction h with
  | start => exact absurd hd List.not_mem_nil
  | use _ _ ih =>
    obtain ⟨k, hi, hk, hb⟩ := ih hd
    exact ⟨k, hi, Nat.lt_succ_of_lt hk, hb⟩
  | @blame j e ds ha hb ih =>
    rcases List.mem_append.1 hd with hd | hd
    · obtain ⟨k, hi, hk, hb⟩ := ih hd
      exact ⟨k, hi, Nat.lt_succ_of_lt hk, hb⟩
    · cases List.mem_singleton.1 hd
      exact ⟨j, ha.le, Nat.lt_succ_self j, hb⟩

/-- A token that no form has use for is passed by a failure on it. -/
theorem Account.exists_of_not_usable {m : Nat} (h : Account limit c i j ds) (hi : i ≤ m)
    (hj : m < j) (hu : ¬ (c.token m).Usable) :
    ∃ ds₁ d ds₂, ds = ds₁ ++ d :: ds₂ ∧ Account limit c i m ds₁ ∧ Blames limit c m d ∧
      Account limit c (m + 1) j ds₂ := by
  induction h with
  | start => omega
  | @use j ds _ hu' ih =>
    have hm : m ≠ j := fun e => hu (e ▸ hu')
    obtain ⟨ds₁, d, ds₂, rfl, h₁, hb, h₂⟩ := ih (by omega)
    exact ⟨ds₁, d, ds₂, rfl, h₁, hb, h₂.use hu'⟩
  | @blame j e ds h hb ih =>
    by_cases hm : m = j
    · subst hm
      exact ⟨ds, e, [], rfl, h, hb, .start⟩
    · obtain ⟨ds₁, d, ds₂, rfl, h₁, hd, h₂⟩ := ih (by omega)
      exact ⟨ds₁, d, ds₂ ++ [e], by rw [List.append_assoc, List.cons_append], h₁, hd, h₂.blame hb⟩

/-- The session has come from the token `i`, where there were the reports `before`, to the token
`j`. -/
structure Reached (limit : Nat) (c : Cursor) (i : Nat) (before : List Diagnostic) (j : Nat)
    (s : Session) : Prop where
  cursor : s.cursor = c.after j
  account : ∃ ds, s.errors.toList = before ++ ds ∧ Account limit c i j ds

namespace Reached

variable {before : List Diagnostic} {s : Session}

theorem refl {s : Session} (h : s.cursor = c.after i) :
    Reached limit c i s.errors.toList i s := ⟨h, [], (List.append_nil _).symm, .start⟩

theorem current (h : Reached limit c i before j s) : s.cursor.current = c.token j := by
  rw [h.cursor]
  rfl

theorem peek (h : Reached limit c i before j s) : s.cursor.peek = c.token (j + 1) := by
  rw [h.cursor]
  rfl

theorem next (h : Reached limit c i before j s) (hu : (c.token j).Usable) :
    Reached limit c i before (j + 1) s.next := by
  obtain ⟨hc, ds, he, ha⟩ := h
  exact ⟨congrArg Cursor.advance hc, ds, he, ha.use hu⟩

theorem reportNext (h : Reached limit c i before j s) (hb : Blames limit c j d) :
    Reached limit c i before (j + 1) (s.report d).next := by
  obtain ⟨hc, ds, he, ha⟩ := h
  refine ⟨congrArg Cursor.advance hc, ds ++ [d], ?_, ha.blame hb⟩
  rw [Session.errors_next, Session.toList_errors_report, he, List.append_assoc]

theorem deeper (h : Reached limit c i before j s) : Reached limit c i before j s.deeper :=
  ⟨h.cursor, h.account⟩

theorem shallower (h : Reached limit c i before j s) : Reached limit c i before j s.shallower :=
  ⟨h.cursor, h.account⟩

end Reached

end ExprLang
