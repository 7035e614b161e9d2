import ExprLang.Proofs.Printing.Coherent
import ExprLang.Proofs.Recovery.InStep
import ExprLang.Proofs.Recovery.Reports
import Mathlib.Data.List.Forall2

/-!
# Sources with the same tokens

What is read of a source and what is reported depends on the kinds and the literals of its tokens
only.  How the tokens are laid out, and in which file, shows in the spans of the trees and in the
positions of the reports, and nowhere else (`parse_sameTokens`).
-/

namespace ExprLang

/-- The diagnostics say the same of the tokens of two sources that have one number. -/
def SameReport (s₁ : String) (f₁ : Option String) (s₂ : String) (f₂ : Option String)
    (d e : Diagnostic) : Prop :=
  d.cause = e.cause ∧ ∃ (k : Nat) (t u : Token), (tokenize s₁ f₁)[k]? = some t ∧
    (tokenize s₂ f₂)[k]? = some u ∧ d.position = t.position ∧ e.position = u.position

variable {s₁ s₂ : String} {f₁ f₂ : Option String}

section

variable (h : (tokenize s₁ f₁).map (fun t => (t.kind, t.literal)) =
  (tokenize s₂ f₂).map fun t => (t.kind, t.literal))

include h

theorem length_upcoming_sameTokens : (Scanner.ofSource s₁ f₁).upcoming.length =
    (Scanner.ofSource s₂ f₂).upcoming.length := by
  have hlength := congrArg List.length h
  rw [List.length_map, List.length_map, length_tokenize, length_tokenize] at hlength
  exact Nat.succ.inj hlength

theorem tokenStream_sameTokens (k : Nat) :
    (tokenStream s₁ f₁ k).kind = (tokenStream s₂ f₂ k).kind ∧
      (tokenStream s₁ f₁ k).literal = (tokenStream s₂ f₂ k).literal := by
  have hget := congrArg (·[min k (Scanner.ofSource s₁ f₁).upcoming.length]?) h
  simp only [List.getElem?_map, getElem?_min_tokenize] at hget
  rw [length_upcoming_sameTokens h, getElem?_min_tokenize] at hget
  exact Prod.mk.inj (Option.some.inj hget)

theorem corresponds_sameTokens : (Session.ofSource s₁ f₁).cursor.Corresponds
    (Session.ofSource s₂ f₂).cursor Token.shape Token.shape := by
  have htoken := tokenStream_sameTokens h
  refine ⟨fun k => ?_, fun k => ?_, fun k => ?_⟩ <;> rw [token_ofSource, token_ofSource]
  · exact Token.shape_eq (htoken k).1 (htoken k).2
  · exact (htoken k).1
  · exact (htoken k).2

theorem map_shape_sameTokens : (parse s₁ f₁).1.statements.map (Stmt.mapTokens Token.shape) =
    (parse s₂ f₂).1.statements.map (Stmt.mapTokens Token.shape) := by
  rw [parse_eq_run, parse_eq_run]
  exact (run_sourceStatements_inStep (corresponds_sameTokens h)).1

theorem forall₂_sameReport :
    List.Forall₂ (SameReport s₁ f₁ s₂ f₂) (parse s₁ f₁).2.toList (parse s₂ f₂).2.toList := by
  obtain ⟨-, rs, hrs, h₁, h₂⟩ := run_sourceStatements_inStep (corresponds_sameTokens h)
  rw [parse_eq_run, parse_eq_run, h₁, h₂]
  refine List.forall₂_map_left_iff.2 (List.forall₂_map_right_iff.2 (List.forall₂_same.2 ?_))
  intro p hp
  obtain ⟨hcause, k, hk, hk'⟩ := hrs p hp
  rw [token_ofSource] at hk hk'
  have hget := getElem?_min_tokenize s₂ f₂ k
  rw [← length_upcoming_sameTokens h] at hget
  exact ⟨hcause, _, _, _, getElem?_min_tokenize s₁ f₁ k, hget, hk, hk'⟩

end

/-- **Layout and file names have no influence.**  If the tokens of two sources agree in their kinds
and literals, then what is read of the sources is the same apart from spans, and what is reported
are the same causes, one after the other and on the same tokens. -/
theorem parse_sameTokens (s₁ s₂ : String) (f₁ f₂ : Option String)
    (h : (tokenize s₁ f₁).map (fun t => (t.kind, t.literal)) =
      (tokenize s₂ f₂).map fun t => (t.kind, t.literal)) :
    (parse s₁ f₁).1.statements.map (Stmt.mapTokens Token.shape) =
        (parse s₂ f₂).1.statements.map (Stmt.mapTokens Token.shape) ∧
      List.Forall₂ (SameReport s₁ f₁ s₂ f₂) (parse s₁ f₁).2.toList (parse s₂ f₂).2.toList :=
  ⟨map_shape_sameTokens h, forall₂_sameReport h⟩

/-- A source with two mistakes, on one line and on three. -/
theorem parse_sameTokens_lines :
    (tokenize "let x=(1;y-,2" none).map (fun t => (t.kind, t.literal)) =
        (tokenize "let x = (1\n ; y -\n , 2 " (some "m")).map (fun t => (t.kind, t.literal)) ∧
      (parse "let x=(1;y-,2" none).2.toList =
        [⟨.unexpected .rparen .semicolon, ⟨8, "shell"⟩⟩, ⟨.noOperand .semicolon, ⟨8, "shell"⟩⟩,
          ⟨.noOperand .comma, ⟨11, "shell"⟩⟩] ∧
      List.Forall₂ (SameReport "let x=(1;y-,2" none "let x = (1\n ; y -\n , 2 " (some "m"))
        (parse "let x=(1;y-,2" none).2.toList
        (parse "let x = (1\n ; y -\n , 2 " (some "m")).2.toList := by
  have h : (tokenize "let x=(1;y-,2" none).map (fun t => (t.kind, t.literal)) =
      (tokenize "let x = (1\n ; y -\n , 2 " (some "m")).map (fun t => (t.kind, t.literal)) := by
    decide +kernel
  exact ⟨h, by decide +kernel, (parse_sameTokens _ _ _ _ h).2⟩

end ExprLang
