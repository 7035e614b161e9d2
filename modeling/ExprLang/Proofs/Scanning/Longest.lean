import Mathlib.Logic.ExistsUnique
import ExprLang.Proofs.Scanning.Layout

/-!
# Longest match

`Pattern.Matches` says what a token of each pattern is in the text around it, without a scanner:
words and numbers are runs of characters that go on as long as they can, `==` and `!=` go before `=`
and `!`, and all other tokens are single characters.  Every token of a source has exactly one pattern
where it stands (`tokenize_longest`).

A run could also be too short at its beginning, if the token before it had left something of it.  So
the scanner is followed with what it has behind it: no word and no number goes on there
(`Scanner.Behind`).
-/

namespace ExprLang

open Text Lexeme

/-! ### Patterns of tokens -/

/-- A letter of the alphabet or an underscore. -/
def IsWordChar (c : Char) : Prop := 'a' ≤ c ∧ c ≤ 'z' ∨ 'A' ≤ c ∧ c ≤ 'Z' ∨ c = '_'

def IsDecimal (c : Char) : Prop := '0' ≤ c ∧ c ≤ '9'

instance : DecidablePred IsWordChar := fun c =>
  inferInstanceAs (Decidable ('a' ≤ c ∧ c ≤ 'z' ∨ 'A' ≤ c ∧ c ≤ 'Z' ∨ c = '_'))

instance : DecidablePred IsDecimal := fun c => inferInstanceAs (Decidable ('0' ≤ c ∧ c ≤ '9'))

/-- The characters of a run have the property `p`, and the ones next to it on both sides have not. -/
structure MaximalRun (p : Char → Prop) (before run after : List Char) : Prop where
  nonempty : run ≠ []
  all : ∀ c ∈ run, p c
  first : ∀ c ∈ before.getLast?, ¬ p c
  last : ∀ c ∈ after.head?, ¬ p c

inductive Pattern
  | word | number | double | half | mark | stray
  deriving DecidableEq

namespace Pattern

def keywords : List (String × Kind) :=
  [("fn", .fnWord), ("let", .letWord), ("true", .trueWord), ("false", .falseWord), ("if", .ifWord),
    ("else", .elseWord), ("return", .returnWord)]

/-- The tokens of two characters that are not runs. -/
def doubles : List (List Char × Kind) := [(['=', '='], .equal), (['!', '='], .notEqual)]

/-- The tokens of one character that begin one of two characters. -/
def halves : List (List Char × Kind) := [(['='], .assign), (['!'], .bang)]

/-- The other tokens of one character, each with a kind of its own. -/
def marks : List (List Char × Kind) :=
  [(['+'], .plus), (['-'], .minus), (['*'], .star), (['/'], .slash), (['<'], .less),
    (['>'], .greater), ([','], .comma), ([';'], .semicolon), (['('], .lparen), ([')'], .rparen),
    (['{'], .lbrace), (['}'], .rbrace)]

/-- The characters that are no letters and no digits, but have a use. -/
def signs : List Char :=
  ['=', '!', '+', '-', '*', '/', '<', '>', ',', ';', '(', ')', '{', '}', ' ', '\t', '\n', '\r']

end Pattern

open Pattern in
/-- Between `before` and `after`, the text `l` is a token of kind `k` with this pattern. -/
def Pattern.Matches (before : List Char) (k : Kind) (l after : List Char) : Pattern → Prop
  | word => MaximalRun IsWordChar before l after ∧
      ((String.ofList l, k) ∈ keywords ∨ k = .ident ∧ ∀ p ∈ keywords, String.ofList l ≠ p.1)
  | number => MaximalRun IsDecimal before l after ∧ k = .int
  | double => (l, k) ∈ doubles
  | half => (l, k) ∈ halves ∧ after.head? ≠ some '='
  | mark => (l, k) ∈ marks
  | stray => k = .illegal ∧ ∃ c, l = [c] ∧ ¬ IsWordChar c ∧ ¬ IsDecimal c ∧ c ∉ signs

def Kind.pattern? : Kind → Option Pattern
  | eof => none
  | illegal => some .stray
  | ident | fnWord | letWord | trueWord | falseWord | ifWord | elseWord | returnWord => some .word
  | int => some .number
  | equal | notEqual => some .double
  | assign | bang => some .half
  | _ => some .mark

section

variable {before l after : List Char} {k : Kind} {pattern : Pattern}

theorem Pattern.Matches.pattern?_eq (h : pattern.Matches before k l after) :
    k.pattern? = some pattern := by
  cases pattern with
  | word =>
    have hkeywords : ∀ p ∈ keywords, p.2.pattern? = some .word := by decide
    obtain ⟨-, hk | ⟨rfl, -⟩⟩ := h
    · exact hkeywords _ hk
    · rfl
  | number => exact congrArg Kind.pattern? h.2
  | double =>
    have hdoubles : ∀ p ∈ doubles, p.2.pattern? = some .double := by decide
    exact hdoubles _ h
  | half =>
    have hhalves : ∀ p ∈ halves, p.2.pattern? = some .half := by decide
    exact hhalves _ h.1
  | mark =>
    have hmarks : ∀ p ∈ marks, p.2.pattern? = some .mark := by decide
    exact hmarks _ h
  | stray => exact congrArg Kind.pattern? h.1

/-! ### Runs -/

theorem isLetter_iff {c : Char} : isLetter c ↔ IsWordChar c := by
  have hletter : isLetter c = (decide ('A' ≤ c ∧ c ≤ 'Z') ||
      (decide ('a' ≤ c) && decide (c ≤ 'z')) || c == '_') := rfl
  rw [hletter]
  simp [IsWordChar, or_assoc, or_left_comm]

theorem isDigit_iff {c : Char} : c.isDigit ↔ IsDecimal c := by
  simp [IsDecimal, Char.isDigit, Char.le_def]

theorem IsDecimal.not_isWordChar {c : Char} (h : IsDecimal c) : ¬ IsWordChar c := fun hw =>
  not_isLetter_of_isDigit (isDigit_iff.2 h) (isLetter_iff.2 hw)

/-- Between `before` and `after` no word and no number goes on. -/
def Cut (before after : List Char) : Prop :=
  ∀ a ∈ before.getLast?, ∀ b ∈ after.head?, ¬ (IsWordChar a ∧ IsWordChar b) ∧
    ¬ (IsDecimal a ∧ IsDecimal b)

theorem cut_of_not (h : ∀ a ∈ before.getLast?, ¬ IsWordChar a ∧ ¬ IsDecimal a) :
    Cut before after :=
  fun a ha _ _ => ⟨fun hw => (h a ha).1 hw.1, fun hd => (h a ha).2 hd.1⟩

/-- A sign is no letter and no digit. -/
theorem Pattern.not_of_mem_signs {c : Char} (h : c ∈ signs) : ¬ IsWordChar c ∧ ¬ IsDecimal c := by
  have hsigns : signs.all (fun c => ¬ IsWordChar c ∧ ¬ IsDecimal c) := by decide
  exact of_decide_eq_true (List.all_eq_true.1 hsigns c h)

theorem cut_of_subset_signs (h : before ⊆ Pattern.signs) : Cut before after :=
  cut_of_not fun _ ha => Pattern.not_of_mem_signs (h (List.mem_of_getLast? ha))

theorem maximalRun_of_takeWhile {p : Char → Bool} {P : Char → Prop} (hp : ∀ {c}, p c ↔ P c)
    (hl : l ≠ []) (h : (l ++ after).takeWhile p = l) (hfirst : ∀ a ∈ before.getLast?, ¬ P a) :
    MaximalRun P before l after :=
  ⟨hl, fun c hc => hp.1 (all_of_takeWhile_append h c hc), hfirst,
    fun c hc hP => not_head?_of_takeWhile_append h c hc (hp.2 hP)⟩

/-- Behind a token no word and no number goes on. -/
theorem Pattern.Matches.cut (h : pattern.Matches before k l after) : Cut l after := by
  cases pattern with
  | word =>
    intro a ha b hb
    have hw := h.1.all a (List.mem_of_getLast? ha)
    exact ⟨fun hab => h.1.last b hb hab.2, fun hab => hab.1.not_isWordChar hw⟩
  | number =>
    intro a ha b hb
    have hd := h.1.all a (List.mem_of_getLast? ha)
    exact ⟨fun hab => hd.not_isWordChar hab.1, fun hab => h.1.last b hb hab.2⟩
  | double =>
    have hdoubles : ∀ p ∈ doubles, p.1 ⊆ signs := by decide
    exact cut_of_subset_signs (hdoubles _ h)
  | half =>
    have hhalves : ∀ p ∈ halves, p.1 ⊆ signs := by decide
    exact cut_of_subset_signs (hhalves _ h.1)
  | mark =>
    have hmarks : ∀ p ∈ marks, p.1 ⊆ signs := by decide
    exact cut_of_subset_signs (hmarks _ h)
  | stray =>
    obtain ⟨-, c, rfl, hw, hd, -⟩ := h
    refine cut_of_not fun a ha => ?_
    cases ha
    exact ⟨hw, hd⟩

/-! ### What is read has a pattern -/

theorem Kind.ofWord_keywords (word : String) :
    (word, ofWord word) ∈ Pattern.keywords ∨
      ofWord word = .ident ∧ ∀ p ∈ Pattern.keywords, word ≠ p.1 := by
  unfold ofWord reserved Pattern.keywords
  simp only [List.lookup_cons, List.lookup_nil]
  repeat' split
  all_goals simp_all

theorem Kind.ofMark?_mem {c : Char} (h : ofMark? c = some k) :
    ([c], k) ∈ Pattern.halves ∨ ([c], k) ∈ Pattern.marks := by
  unfold ofMark? at h
  split at h <;> cases h <;> decide

theorem Kind.not_mem_signs {c : Char} (h : ofMark? c = none) (hb : ¬ isBlank c) :
    c ∉ Pattern.signs := by
  have hsigns : Pattern.signs.all (fun c => (ofMark? c).isSome ∨ isBlank c) := by decide
  intro hc
  rcases of_decide_eq_true (List.all_eq_true.1 hsigns c hc) with hm | hm
  · rw [h] at hm
    exact absurd hm nofun
  · exact hb hm

/-- What a scanner reads as a token has a pattern, if it does not stand in the middle of a word or a
number. -/
theorem Lexeme.Spells.exists_matches (h : Spells k l after) (hcut : Cut before (l ++ after)) :
    ∃ pattern : Pattern, pattern.Matches before k l after := by
  obtain ⟨c, cs, rfl, hb, hl⟩ := h
  by_cases hc : isLetter c
  · unfold leading at hl
    rw [if_pos hc] at hl
    obtain ⟨rfl, hcs⟩ := Prod.mk.inj hl
    have hrun : (c :: cs ++ after).takeWhile isLetter = c :: cs := by
      rw [List.cons_append, List.takeWhile_cons_of_pos hc, hcs]
    refine ⟨.word, maximalRun_of_takeWhile isLetter_iff (List.cons_ne_nil c cs) hrun ?_, ?_⟩
    · exact fun a ha hw => (hcut a ha c rfl).1 ⟨hw, isLetter_iff.1 hc⟩
    · rw [hcs]
      exact Kind.ofWord_keywords _
  by_cases hd : c.isDigit
  · unfold leading at hl
    rw [if_neg hc, if_pos hd] at hl
    obtain ⟨rfl, hcs⟩ := Prod.mk.inj hl
    have hrun : (c :: cs ++ after).takeWhile Char.isDigit = c :: cs := by
      rw [List.cons_append, List.takeWhile_cons_of_pos hd, hcs]
    refine ⟨.number, maximalRun_of_takeWhile isDigit_iff (List.cons_ne_nil c cs) hrun ?_, rfl⟩
    exact fun a ha hw => (hcut a ha c rfl).2 ⟨hw, isDigit_iff.1 hd⟩
  cases cs with
  | nil =>
    rw [List.nil_append] at hl
    have hhalf := head?_ne_of_leading hl
    rw [leading_mark hc hd hhalf] at hl
    obtain ⟨rfl, -⟩ := Prod.mk.inj hl
    cases hm : Kind.ofMark? c with
    | none =>
      have hword : ¬ IsWordChar c := fun hw => hc (isLetter_iff.2 hw)
      have hdecimal : ¬ IsDecimal c := fun hw => hd (isDigit_iff.2 hw)
      exact ⟨.stray, rfl, c, rfl, hword, hdecimal, Kind.not_mem_signs hm hb⟩
    | some m =>
      rcases Kind.ofMark?_mem hm with hmem | hmem
      · refine ⟨.half, hmem, hhalf ?_⟩
        have hhalves : ∀ p ∈ Pattern.halves, p.1 = ['='] ∨ p.1 = ['!'] := by decide
        simpa using hhalves _ hmem
      · exact ⟨.mark, hmem⟩
  | cons d ds =>
    unfold leading at hl
    rw [if_neg hc, if_neg hd] at hl
    refine ⟨.double, ?_⟩
    split at hl
    · obtain ⟨rfl, hcs⟩ := Prod.mk.inj hl
      rw [← hcs]
      exact List.mem_cons_self
    · obtain ⟨rfl, hcs⟩ := Prod.mk.inj hl
      rw [← hcs]
      exact List.mem_cons_of_mem _ List.mem_cons_self
    · exact absurd (Prod.mk.inj hl).2 (by simp)

end

/-! ### Along a source -/

theorem Cut.blanks {before gap after : List Char} (h : Cut before (gap ++ after))
    (hb : ∀ b ∈ gap, isBlank b) : Cut (before ++ gap) after := by
  cases hgap : gap.getLast? with
  | none =>
    obtain rfl := List.getLast?_eq_none_iff.1 hgap
    rwa [List.append_nil]
  | some b =>
    refine cut_of_not fun a ha => ?_
    rw [List.getLast?_append, hgap] at ha
    cases ha
    have hblank := hb b (List.mem_of_getLast? hgap)
    exact ⟨fun hw => not_isBlank_of_isLetter (isLetter_iff.2 hw) hblank,
      fun hd => not_isBlank_of_isDigit (isDigit_iff.2 hd) hblank⟩

theorem Cut.of_append {before l after : List Char} (h : Cut l after) (hl : l ≠ []) :
    Cut (before ++ l) after := by
  intro a ha
  rw [List.getLast?_append, List.getLast?_eq_some_getLast hl, Option.some_or] at ha
  exact h a ((List.getLast?_eq_some_getLast hl).trans ha)

namespace Scanner

/-- The scanner stands behind the beginning of a text, and no word and no number goes on there. -/
structure Behind (s : Scanner) (text before : List Char) : Prop where
  text : text = before ++ s.rest
  offset : s.offset = byteWidth before
  cut : Cut before s.rest

/-- The token is what the scanner comes to behind `before`, in front of `after`. -/
structure ComesTo (s : Scanner) (text before : List Char) (t : Token) (after : List Char) :
    Prop where
  text : text = before ++ (t.literal.toList ++ after)
  place : s.skipBlanks = ⟨s.file, byteWidth before, t.literal.toList ++ after⟩
  span : t.span =
    Span.between (byteWidth before) (byteWidth before + byteWidth t.literal.toList) s.file

variable {s : Scanner} {text before : List Char} {t : Token} {i : Nat}

/-- The next token matches a pattern, and behind it the scanner stands as it did before. -/
theorem Behind.next (h : s.Behind text before) (hk : s.next.1.kind ≠ .eof) :
    ∃ before' after, s.ComesTo text before' s.next.1 after ∧
      (∃ pattern : Pattern,
        pattern.Matches before' s.next.1.kind s.next.1.literal.toList after) ∧
      s.next.2.Behind text (before' ++ s.next.1.literal.toList) := by
  obtain ⟨k, gap, l, after, hb, hspells, -, hrest⟩ := exists_spells hk
  obtain ⟨file, offset, rest⟩ := s
  obtain rfl : rest = gap ++ (l ++ after) := hrest
  obtain ⟨htext, rfl, hcut⟩ := h
  have hcut' : Cut (before ++ gap) (l ++ after) := hcut.blanks hb
  obtain ⟨pattern, hmatches⟩ := hspells.exists_matches hcut'
  obtain ⟨c, cs, rfl, hc, -⟩ := id hspells
  have hskip : (⟨file, byteWidth before, gap ++ (c :: cs ++ after)⟩ : Scanner).skipBlanks =
      ⟨file, byteWidth before + byteWidth gap, c :: cs ++ after⟩ :=
    skipBlanks_append hb (by rintro _ ⟨⟩; exact hc)
  rw [next_append hb hspells]
  simp only [String.toList_ofList]
  rw [← byteWidth_append] at hskip ⊢
  refine ⟨before ++ gap, after, ⟨?_, ?_, ?_⟩, ⟨pattern, hmatches⟩, ⟨?_, ?_, ?_⟩⟩
  · simp only [String.toList_ofList, List.append_assoc]
    exact htext
  · simp only [String.toList_ofList]
    exact hskip
  · simp only [String.toList_ofList]
  · simp only [List.append_assoc]
    exact htext
  · rw [byteWidth_append _ (c :: cs)]
  · exact hmatches.cut.of_append (List.cons_ne_nil c cs)

/-- Every token matches a pattern where the scanner comes to it.  The induction is on the number of
the token. -/
theorem Behind.getElem? (h : s.Behind text before) (ht : s.tokens[i]? = some t)
    (hk : t.kind ≠ .eof) :
    ∃ before after, (s.after i).ComesTo text before t after ∧
      ∃ pattern : Pattern, pattern.Matches before t.kind t.literal.toList after := by
  induction i generalizing s before with
  | zero =>
    rw [tokens_eq] at ht
    split at ht
    · rename_i he
      cases ht
      exact absurd he hk
    · cases ht
      obtain ⟨before, after, hcomes, hmatches, -⟩ := h.next hk
      exact ⟨before, after, hcomes, hmatches⟩
  | succ i ih =>
    rw [tokens_eq] at ht
    split at ht
    · exact absurd ht nofun
    · rename_i hne
      obtain ⟨_, _, -, -, hnext⟩ := h.next hne
      exact ih hnext ht

end Scanner

/-- **Scanning is longest match.**  Every token before the end of a source matches exactly one
pattern where it stands, which is where the scanner comes to it after the tokens before it; and its
span is that place, as far as offsets reach. -/
theorem tokenize_longest (source : String) (file : Option String) (i : Nat) (t : Token)
    (ht : (tokenize source file)[i]? = some t) (hk : t.kind ≠ .eof) :
    ∃ before after,
      ((Scanner.ofSource source file).after i).ComesTo source.toList before t after ∧
      ∃! pattern : Pattern, pattern.Matches before t.kind t.literal.toList after := by
  have hstart : (Scanner.ofSource source file).Behind source.toList [] := ⟨rfl, rfl, nofun⟩
  obtain ⟨before, after, hcomes, pattern, hmatches⟩ := hstart.getElem? ht hk
  refine ⟨before, after, hcomes, pattern, hmatches, fun other hother => ?_⟩
  exact Option.some.inj (hother.pattern?_eq.symm.trans hmatches.pattern?_eq)

/-- Behind `!=`, the second `=` stands for itself. -/
theorem tokenize_longest_assign :
    (tokenize "é!== x" none)[2]? = some ⟨.assign, "=", ⟨4, 5, "shell"⟩⟩ ∧ Kind.assign ≠ .eof ∧
      ∃ before after,
        ((Scanner.ofSource "é!== x" none).after 2).ComesTo "é!== x".toList before
          ⟨.assign, "=", ⟨4, 5, "shell"⟩⟩ after ∧
        Pattern.half.Matches before .assign ['='] after := by
  have ht : (tokenize "é!== x" none)[2]? = some ⟨.assign, "=", ⟨4, 5, "shell"⟩⟩ := by
    decide +kernel
  obtain ⟨before, after, hcomes, pattern, hmatches, -⟩ := tokenize_longest _ _ _ _ ht nofun
  obtain rfl : .half = pattern := Option.some.inj hmatches.pattern?_eq
  exact ⟨ht, nofun, before, after, hcomes, hmatches⟩

end ExprLang
