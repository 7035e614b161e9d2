import ExprLang.Proofs.Recovery.Trace
import ExprLang.Proofs.Scanning.Offsets

/-!
# What the reports say

The account of a whole source (`account_parse`) tells what each report is about.  It is true of the
token on which it shows (`parse_truthful`).  The reports are in the order of the source, and at no
place before its end are there more than two of them (`parse_ordered`).
-/

namespace ExprLang

open Grammar

/-! ### The account of a source -/

/-- The tokens of a list of statements are accounted for up to the one that closes it. -/
theorem account_statements {closes : Kind → Bool} (hc : closes .eof) (limit : Nat) (s : Session) :
    ∃ n ds, ((statements (expressionWithin limit) closes hc).run s).2.errors.toList =
        s.errors.toList ++ ds ∧
      closes (s.cursor.token n).kind ∧ Account limit s.cursor 0 n ds := by
  have hs : Reached limit s.cursor 0 s.errors.toList 0 s := .refl rfl
  obtain ⟨n, ⟨-, ds, hds, ha⟩, hn, -⟩ := (traces_expressionOn (limit - s.depth)).statements hs
  rw [run_statements_expressionWithin rfl]
  exact ⟨n, ds, hds, hn, ha⟩

section

variable (source : String) (file : Option String)

theorem token_ofSource (k : Nat) :
    (Session.ofSource source file).cursor.token k = tokenStream source file k :=
  (sees_after (s := ⟨(Session.ofSource source file).cursor.after k, #[], 0⟩) rfl).current

theorem token_ofSource_of_upcoming_le {k : Nat}
    (hk : (Scanner.ofSource source file).upcoming.length ≤ k) :
    (Session.ofSource source file).cursor.token k = (Scanner.ofSource source file).endToken := by
  rw [token_ofSource, tokenStream_of_le source file hk]

theorem account_parse : ∃ n, (tokenStream source file n).kind = .eof ∧
    Account maxLevels (Session.ofSource source file).cursor 0 n (parse source file).2.toList := by
  obtain ⟨n, ds, hds, hn, ha⟩ : ∃ n ds, (parse source file).2.toList = [] ++ ds ∧
      ((Session.ofSource source file).cursor.token n).kind == .eof ∧
      Account maxLevels (Session.ofSource source file).cursor 0 n ds :=
    account_statements rfl maxLevels (Session.ofSource source file)
  rw [token_ofSource] at hn
  exact ⟨n, beq_iff_eq.1 hn, hds ▸ ha⟩

end

/-! ### Where a report shows -/

/-- Whether it is the next token that is wrong. -/
def Cause.isUnexpected : Cause → Bool
  | unexpected .. => true
  | _ => false

def Diagnostic.isUnexpected (d : Diagnostic) : Bool := d.cause.isUnexpected

/-- The number of the token on which a failure on the token `k` shows. -/
def Diagnostic.place (d : Diagnostic) (k : Nat) : Nat := if d.isUnexpected then k + 1 else k

theorem Diagnostic.place_of_not_isUnexpected {d : Diagnostic} {k : Nat} (h : d.isUnexpected = false) :
    d.place k = k := if_neg (by rw [h]; nofun)

/-- The token of a failure that comes later is further on, unless the first one is about the token
that was to follow and the second one about the same token. -/
theorem Diagnostic.place_lt_or {d e : Diagnostic} {k m : Nat} (h : k < m) :
    d.place k < e.place m ∨
      d.place k = e.place m ∧ d.isUnexpected = true ∧ e.isUnexpected = false := by
  unfold place
  cases d.isUnexpected <;> cases e.isUnexpected <;> simp <;> omega

section

variable {source : String} {file : Option String} {k n m : Nat} {d e : Diagnostic}

theorem Blames.position_eq {limit : Nat}
    (h : Blames limit (Session.ofSource source file).cursor k d) :
    d.position = (tokenStream source file (d.place k)).position := by
  rw [← token_ofSource]
  cases h <;> rfl

theorem Blames.offset_eq {limit : Nat}
    (h : Blames limit (Session.ofSource source file).cursor k d) :
    d.position.offset = (tokenStream source file (d.place k)).span.start :=
  congrArg Position.offset h.position_eq

end

/-! ### Every report is true -/

/-- What a cause says is true of the token on which it shows. -/
inductive Cause.TrueOf (t : Token) : Cause → Prop
  | unexpected {e : Kind} (he : e ∈ [.ident, .assign, .lparen, .rparen, .lbrace]) (h : t.kind ≠ e) :
      TrueOf t (.unexpected e t.kind)
  | noOperand (h : ∀ expr, operand? expr t.kind = none) : TrueOf t (.noOperand t.kind)
  | badNumber (hk : t.kind = .int) (hl : t.literal.toList ≠ [] ∧ ∀ c ∈ t.literal.toList, c.isDigit)
      (h : Decimal.limit ≤ Decimal.value t.literal.toList) : TrueOf t (.badNumber t.literal)
  | tooDeep : TrueOf t (.tooDeep 128)

theorem Kind.mem_of_isExpected {k : Kind} (h : k.isExpected) :
    k ∈ [ident, assign, lparen, rparen, lbrace] := by
  revert h
  cases k <;> decide

/-- A number in a source is a run of digits. -/
theorem digits_of_mem_tokenize {source : String} {file : Option String} {t : Token}
    (ht : t ∈ tokenize source file) (hk : t.kind = .int) :
    t.literal.toList ≠ [] ∧ ∀ c ∈ t.literal.toList, c.isDigit := by
  obtain ⟨c, cs, hl⟩ := isLexeme_of_mem_tokenize ht (by rw [hk]; nofun)
  exact Lexeme.digits_of_leading (hk ▸ hl)

theorem limit_le_value_of_ofLiteral? {literal : String}
    (hl : literal.toList ≠ [] ∧ ∀ c ∈ literal.toList, c.isDigit)
    (h : Decimal.ofLiteral? literal = none) : Decimal.limit ≤ Decimal.value literal.toList := by
  refine Nat.le_of_not_lt fun hlt => ?_
  have hs := Decimal.ofLiteral?_eq_some.2 ⟨hl.1, hl.2, rfl, hlt⟩
  rw [h] at hs
  exact absurd hs nofun

theorem Blames.trueOf {source : String} {file : Option String} {k : Nat} {d : Diagnostic}
    (h : Blames maxLevels (Session.ofSource source file).cursor k d) :
    d.cause.TrueOf (tokenStream source file (d.place k)) := by
  cases h with
  | noOperand h =>
    rw [token_ofSource] at h ⊢
    exact .noOperand h
  | badNumber hk h =>
    rw [token_ofSource] at hk h ⊢
    have hl := digits_of_mem_tokenize (tokenStream_mem source file k) hk
    exact .badNumber hk hl (limit_le_value_of_ofLiteral? hl h)
  | tooDeep => exact .tooDeep
  | unexpected _ he hk =>
    rw [token_ofSource] at hk ⊢
    exact .unexpected (Kind.mem_of_isExpected he) hk

/-- **Reports are true.**  Every report is in the file of the source, at the start of one of its
tokens, and what it says is true of this token. -/
theorem parse_truthful (source : String) (file : Option String) (d : Diagnostic)
    (hd : d ∈ (parse source file).2) :
    d.position.file = file.getD defaultFile ∧
      ∃ t ∈ tokenize source file, d.position = t.position ∧ d.cause.TrueOf t := by
  obtain ⟨n, -, ha⟩ := account_parse source file
  obtain ⟨k, -, -, hb⟩ := ha.exists_blames (Array.mem_toList_iff.2 hd)
  have ht := tokenStream_mem source file (d.place k)
  refine ⟨?_, _, ht, hb.position_eq, hb.trueOf⟩
  rw [hb.position_eq]
  exact file_of_mem_tokenize ht

/-- A parenthesis that is missing, reported where the source ends. -/
theorem parse_truthful_open :
    (⟨.unexpected .rparen .eof, ⟨2, "f.x"⟩⟩ : Diagnostic) ∈ (parse "(x" (some "f.x")).2 ∧
      ∃ t ∈ tokenize "(x" (some "f.x"), (⟨2, "f.x"⟩ : Position) = t.position ∧
        (Cause.unexpected .rparen .eof).TrueOf t := by
  have hd : (⟨.unexpected .rparen .eof, ⟨2, "f.x"⟩⟩ : Diagnostic) ∈
      (parse "(x" (some "f.x")).2 := by decide +kernel
  exact ⟨hd, (parse_truthful _ _ _ hd).2⟩

/-! ### Reports are in order -/

/-- The second report may come behind the first: it is further on in the source, or at the same
place, and then both are at the end or only the first one is about a token that was to follow. -/
def Precedes (stop : Nat) (d e : Diagnostic) : Prop :=
  d.position.offset < e.position.offset ∨ d.position.offset = e.position.offset ∧
    (d.position.offset = stop ∨ d.isUnexpected = true ∧ e.isUnexpected = false)

theorem Precedes.le {stop : Nat} {d e : Diagnostic} (h : Precedes stop d e) :
    d.position.offset ≤ e.position.offset := by
  rcases h with h | ⟨h, -⟩
  · exact Nat.le_of_lt h
  · exact Nat.le_of_eq h

section

variable {source : String} {file : Option String} {limit i j k m : Nat} {d e : Diagnostic}
  {ds : List Diagnostic} (h : source.utf8ByteSize ≤ maxOffset)

include h

theorem Blames.precedes (hd : Blames limit (Session.ofSource source file).cursor k d)
    (he : Blames limit (Session.ofSource source file).cursor m e) (hkm : k < m) :
    Precedes source.utf8ByteSize d e := by
  rw [Precedes, hd.offset_eq, he.offset_eq]
  rcases Diagnostic.place_lt_or (d := d) (e := e) hkm with hlt | ⟨heq, hu⟩
  · rcases start_tokenStream_lt_or file h hlt with hs | ⟨hs, hs'⟩
    · exact .inl hs
    · exact .inr ⟨hs.trans hs'.symm, .inl hs⟩
  · exact .inr ⟨congrArg (fun k => (tokenStream source file k).span.start) heq, .inr hu⟩

theorem Account.pairwise_precedes
    (ha : Account limit (Session.ofSource source file).cursor i j ds) :
    ds.Pairwise (Precedes source.utf8ByteSize) := by
  induction ha with
  | start => exact .nil
  | use _ _ ih => exact ih
  | blame ha hb ih =>
    refine List.pairwise_append.2 ⟨ih, List.pairwise_singleton _ _, fun d hd e he => ?_⟩
    obtain ⟨k, -, hk, hd⟩ := ha.exists_blames hd
    cases List.mem_singleton.1 he
    exact hd.precedes h hb hk

end

/-- Where each element has a property and the ones behind it do not, there are two of them at
most. -/
theorem length_le_two_of_pairwise {α : Type} {p : α → Bool} {l : List α}
    (h : l.Pairwise fun x y => p x = true ∧ p y = false) : l.length ≤ 2 := by
  match l, h with
  | [], _ | [_], _ | [_, _], _ => simp
  | x :: y :: z :: l, h =>
    have hxy := (List.pairwise_cons.1 h).1 y List.mem_cons_self
    have hyz := (List.pairwise_cons.1 (List.pairwise_cons.1 h).2).1 z List.mem_cons_self
    exact absurd (hyz.1.symm.trans hxy.2) nofun

/-- **Reports are in the order of the source.**  Their offsets grow or stay, and at one offset before
the end of the source there are at most two reports; of two the first one, and not the second one,
is about a token that was to follow. -/
theorem parse_ordered (source : String) (file : Option String)
    (h : source.utf8ByteSize ≤ maxOffset) :
    ((parse source file).2.toList.Pairwise fun d e => d.position.offset ≤ e.position.offset) ∧
      ∀ offset ≠ source.utf8ByteSize,
        ((parse source file).2.toList.filter (·.position.offset == offset)).length ≤ 2 ∧
          ∀ d e, (parse source file).2.toList.filter (·.position.offset == offset) = [d, e] →
            d.isUnexpected = true ∧ e.isUnexpected = false := by
  obtain ⟨n, -, ha⟩ := account_parse source file
  have hp := ha.pairwise_precedes h
  refine ⟨hp.imp Precedes.le, fun offset ho => ?_⟩
  have hf : ((parse source file).2.toList.filter (·.position.offset == offset)).Pairwise
      fun d e => d.isUnexpected = true ∧ e.isUnexpected = false := by
    refine (hp.filter _).imp_of_mem fun {d e} hd he hde => ?_
    have hd' : d.position.offset = offset := beq_iff_eq.1 (List.mem_filter.1 hd).2
    have he' : e.position.offset = offset := beq_iff_eq.1 (List.mem_filter.1 he).2
    rcases hde with hlt | ⟨-, hs | hu⟩
    · omega
    · exact absurd (hd'.symm.trans hs) ho
    · exact hu
  refine ⟨length_le_two_of_pairwise hf, fun d e hde => ?_⟩
  rw [hde] at hf
  exact (List.pairwise_cons.1 hf).1 e List.mem_cons_self

/-- Two reports on one comma: it is not the name that was to follow, and nothing begins with it. -/
theorem parse_ordered_comma :
    "let ,".utf8ByteSize ≤ maxOffset ∧
      (parse "let ," none).2.toList = [⟨.unexpected .ident .comma, ⟨4, "shell"⟩⟩,
        ⟨.noOperand .comma, ⟨4, "shell"⟩⟩] ∧
      ((parse "let ," none).2.toList.filter (·.position.offset == 4)).length ≤ 2 := by
  have hsize : "let ,".utf8ByteSize ≤ maxOffset := by decide
  exact ⟨hsize, by decide +kernel, ((parse_ordered "let ," none hsize).2 4 (by decide)).1⟩

end ExprLang
