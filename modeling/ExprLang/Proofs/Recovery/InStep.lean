import ExprLang.Proofs.Parsing.Depth
import ExprLang.Proofs.Recovery.Account

/-!
# Parses of corresponding tokens

If the tokens from two cursors on correspond, number by number, in their kinds and literals, then
two parses of them stay on tokens of one number, read trees that look the same, and make reports
with the same causes on tokens of one number (`agree_inStep`, `run_sourceStatements_inStep`).
-/

namespace ExprLang

open Grammar

/-- The tokens from `c` on, seen through `left`, are those from `d` on, seen through `right`, with
their kinds and literals. -/
structure Cursor.Corresponds (c d : Cursor) (left right : Token → Token) : Prop where
  view : ∀ k, left (c.token k) = right (d.token k)
  kind : ∀ k, (c.token k).kind = (d.token k).kind
  literal : ∀ k, (c.token k).literal = (d.token k).literal

/-- The reports have one cause and show on tokens with one number. -/
def SamePlace (c d : Cursor) (r : Diagnostic × Diagnostic) : Prop :=
  r.1.cause = r.2.cause ∧
    ∃ k, r.1.position = (c.token k).position ∧ r.2.position = (d.token k).position

/-- The sessions are on tokens with one number.  Since there were the reports `before` on the left
and `before'` on the right, both have reported the same. -/
structure InStep (c d : Cursor) (before before' : List Diagnostic) (s t : Session) : Prop where
  cursor : ∃ k, s.cursor = c.after k ∧ t.cursor = d.after k
  errors : ∃ rs : List (Diagnostic × Diagnostic), (∀ r ∈ rs, SamePlace c d r) ∧
    s.errors.toList = before ++ rs.map Prod.fst ∧ t.errors.toList = before' ++ rs.map Prod.snd

section

variable {c d : Cursor} {left right : Token → Token} {before before' : List Diagnostic}
  {s t : Session}

theorem InStep.report {e f : Diagnostic} (h : InStep c d before before' s t)
    (he : SamePlace c d (e, f)) : InStep c d before before' (s.report e) (t.report f) := by
  obtain ⟨hc, rs, hrs, hs, ht⟩ := h
  refine ⟨hc, rs ++ [(e, f)], ?_, ?_, ?_⟩
  · exact List.forall_mem_append.2 ⟨hrs, List.forall_mem_singleton.2 he⟩
  · rw [Session.toList_errors_report, hs, List.map_append, List.append_assoc]
    rfl
  · rw [Session.toList_errors_report, ht, List.map_append, List.append_assoc]
    rfl

def inStep (h : c.Corresponds d left right) (before before' : List Diagnostic) : Simulation where
  left := left
  right := right
  Same t u := ∃ k, t = c.token k ∧ u = d.token k
  SameReport e f := SamePlace c d (e, f)
  Sync := InStep c d before before'
  Apart _ _ := False
  Pending _ _ _ := False
  view := by
    rintro _ _ ⟨k, rfl, rfl⟩
    exact h.view k
  kind := by
    rintro _ _ ⟨k, rfl, rfl⟩
    exact h.kind k
  literal := by
    rintro _ _ ⟨k, rfl, rfl⟩
    exact h.literal k
  failAt := by
    rintro _ _ cause ⟨k, rfl, rfl⟩ _
    exact ⟨rfl, k, rfl, rfl⟩
  current := by
    rintro s t ⟨⟨k, hs, ht⟩, _⟩
    exact ⟨k, congrArg Cursor.current hs, congrArg Cursor.current ht⟩
  peek := by
    rintro s t ⟨⟨k, hs, ht⟩, _⟩
    exact ⟨k + 1, congrArg Cursor.peek hs, congrArg Cursor.peek ht⟩
  next := by
    rintro s t ⟨⟨k, hs, ht⟩, he⟩
    exact ⟨⟨k + 1, congrArg Cursor.advance hs, congrArg Cursor.advance ht⟩, he⟩
  report hs he := hs.report he
  apart h _ _ := h
  pending h _ := h
  pendingReport h := h

/-- The induction is on the levels that may be opened. -/
theorem agree_inStep (h : c.Corresponds d left right) (limit levels m : Nat) :
    (inStep h before before').Calls (expressionOn limit levels) (expressionOn limit levels) m := by
  induction levels generalizing m with
  | zero =>
    intro p s t hs _
    obtain ⟨k, hk, hk'⟩ := (inStep h before before').current hs
    rw [expressionOn, Parse.run_current_bind, Parse.run_current_bind, hk, hk']
    exact .error ⟨rfl, k, rfl, rfl⟩ hs
  | succ levels ih =>
    intro p s t hs hm
    have hs' : (inStep h before before').Sync s.deeper t.deeper := ⟨hs.cursor, hs.errors⟩
    refine Simulation.agree_nested (fun hu => ⟨hu.cursor, hu.errors⟩) id ?_
    exact (ih m).expressionAbove hs' (Nat.le_of_lt hm)

/-- The statements from corresponding tokens on look the same, and what is reported on the way has
the same causes in the same places. -/
theorem run_sourceStatements_inStep (h : s.cursor.Corresponds t.cursor left right) :
    let r := sourceStatements.run s
    let q := sourceStatements.run t
    r.1.map (Stmt.mapTokens left) = q.1.map (Stmt.mapTokens right) ∧
      ∃ rs : List (Diagnostic × Diagnostic), (∀ p ∈ rs, SamePlace s.cursor t.cursor p) ∧
        r.2.errors.toList = s.errors.toList ++ rs.map Prod.fst ∧
        q.2.errors.toList = t.errors.toList ++ rs.map Prod.snd := by
  have hsync : InStep s.cursor t.cursor s.errors.toList t.errors.toList s t :=
    ⟨⟨0, rfl, rfl⟩, [], fun _ hr => absurd hr List.not_mem_nil, (List.append_nil _).symm,
      (List.append_nil _).symm⟩
  have hcalls : (inStep h s.errors.toList t.errors.toList).Calls
      (expressionOn maxLevels maxLevels) (expressionOn maxLevels maxLevels)
      (s.cursor.size + 1) := agree_inStep h maxLevels maxLevels _
  have hagree : (inStep h s.errors.toList t.errors.toList).AgreeWalk
      (inStep h s.errors.toList t.errors.toList).SameStmts
      (sourceStatements.run s) (sourceStatements.run t) :=
    hcalls.statements hsync (Nat.lt_succ_self _)
  generalize sourceStatements.run s = r at *
  generalize sourceStatements.run t = q at *
  cases hagree with
  | apart ha => exact ha.elim
  | sync hss huv => exact ⟨hss, huv.errors⟩

end

end ExprLang
