import Mathlib.Data.List.Chain
import ExprLang.Proofs.Scanning.Concat
import ExprLang.Proofs.Scanning.Longest

/-!
# Texts written token by token

A `Layout` is a text that is put together from tokens and blanks.  The scanner reads its tokens back
if and only if there are blanks between all neighbours that would otherwise be read as something
else (`tokenize_layout`).  `Kind.Merges` lists these neighbours: two words, two numbers, and a `=`
or `!` with a `=` or `==` behind it.  The spans are those of the text as long as positions can hold
them; behind `maxOffset` bytes they cannot (`not_tokenize_layout_eq_tokens`).

What can be a token is said by the patterns, with nothing before it and nothing behind it
(`Kind.HasLexeme`).  Since a pattern looks no further than one character ahead, a token is read as
it was written unless its kind takes in the character behind it (`Kind.HasLexeme.spells_iff`).
-/

namespace ExprLang

open Text Lexeme

variable {before l l' after tail : List Char} {k k' : Kind} {pattern : Pattern}

/-! ### What has a pattern is read -/

/-- The kind of a word is the one that its pattern says. -/
theorem Kind.eq_ofWord {word : String} (h : (word, k) ∈ Pattern.keywords ∨
    k = .ident ∧ ∀ p ∈ Pattern.keywords, word ≠ p.1) : k = ofWord word := by
  rcases h with h | ⟨rfl, h⟩
  · have hkeywords : ∀ p ∈ Pattern.keywords, p.2 = ofWord p.1 := by decide
    exact hkeywords _ h
  · rcases ofWord_keywords word with hk | ⟨hk, -⟩
    · exact absurd rfl (h _ hk)
    · exact hk.symm

theorem Kind.ofMark?_eq_none {c : Char} (h : c ∉ Pattern.signs) : ofMark? c = none := by
  unfold ofMark?
  split
  all_goals first | rfl | exact absurd (by decide) h

theorem Pattern.mem_signs_of_isBlank {c : Char} (h : isBlank c) : c ∈ signs := by
  rcases eq_of_isBlank h with rfl | rfl | rfl | rfl <;> decide

/-- A text that matches a pattern where it stands is read there. -/
theorem Pattern.Matches.spells (h : pattern.Matches before k l after) : Spells k l after := by
  cases pattern with
  | word =>
    obtain ⟨hrun, hk⟩ := h
    rw [Kind.eq_ofWord hk]
    apply spells_word hrun.nonempty
    · intro c hc
      exact isLetter_iff.2 (hrun.all c hc)
    · intro c hc hl
      exact hrun.last c hc (isLetter_iff.1 hl)
  | number =>
    obtain ⟨hrun, rfl⟩ := h
    apply spells_number hrun.nonempty
    · intro c hc
      exact isDigit_iff.2 (hrun.all c hc)
    · intro c hc hd
      exact hrun.last c hc (isDigit_iff.1 hd)
  | double =>
    simp only [Matches, doubles, List.mem_cons, Prod.mk.injEq, List.not_mem_nil, or_false] at h
    rcases h with ⟨rfl, rfl⟩ | ⟨rfl, rfl⟩
    · exact spells_equal after
    · exact spells_notEqual after
  | half =>
    obtain ⟨h, hafter⟩ := h
    simp only [halves, List.mem_cons, Prod.mk.injEq, List.not_mem_nil, or_false] at h
    rcases h with ⟨rfl, rfl⟩ | ⟨rfl, rfl⟩
    · exact spells_mark rfl fun _ => hafter
    · exact spells_mark rfl fun _ => hafter
  | mark =>
    have hmarks : ∀ p ∈ marks, ∃ c, p.1 = [c] ∧ Kind.ofMark? c = some p.2 ∧ c ≠ '=' ∧ c ≠ '!' := by
      simp [marks, Kind.ofMark?]
    obtain ⟨c, rfl, hk, hequal, hbang⟩ := hmarks _ h
    exact spells_mark hk fun hc => (hc.elim hequal hbang).elim
  | stray =>
    obtain ⟨rfl, c, rfl, hw, hd, hc⟩ := h
    refine ⟨c, [], rfl, fun hb => hc (mem_signs_of_isBlank hb), ?_⟩
    have hmark : c = '=' ∨ c = '!' → after.head? ≠ some '=' := by
      rintro (rfl | rfl) <;> exact absurd (by decide) hc
    rw [List.nil_append, leading_mark (fun hl => hw (isLetter_iff.1 hl))
      (fun hn => hd (isDigit_iff.1 hn)) hmark, Kind.ofMark?_eq_none hc]
    rfl

/-! ### What can be a token -/

/-- A token of this kind can have this text: with nothing next to it, the text matches a pattern. -/
def Kind.HasLexeme (k : Kind) (l : List Char) : Prop :=
  ∃ pattern : Pattern, pattern.Matches [] k l []

/-- Directly behind a token of this kind, the character is read as a part of the token. -/
def Kind.Takes (k : Kind) (c : Char) : Prop :=
  k.pattern? = some .word ∧ IsWordChar c ∨ k = .int ∧ IsDecimal c ∨
    (k = .assign ∨ k = .bang) ∧ c = '='

/-- Directly behind one another, tokens of these kinds are read otherwise: two words as one, two
numbers as one, and a `=` or `!` together with a `=`. -/
def Kind.Merges (k k' : Kind) : Prop :=
  k.pattern? = some .word ∧ k'.pattern? = some .word ∨ k = .int ∧ k' = .int ∨
    (k = .assign ∨ k = .bang) ∧ (k' = .assign ∨ k' = .equal)

instance (k k' : Kind) : Decidable (k.Merges k') :=
  inferInstanceAs (Decidable (_ ∧ _ ∨ _ ∧ _ ∨ (_ ∨ _) ∧ (_ ∨ _)))

/-- Blanks are never read as a part of a token. -/
theorem Kind.Takes.not_isBlank {c : Char} (h : k.Takes c) : ¬ isBlank c := by
  rcases h with ⟨-, hw⟩ | ⟨-, hd⟩ | ⟨-, rfl⟩
  · exact not_isBlank_of_isLetter (isLetter_iff.2 hw)
  · exact not_isBlank_of_isDigit (isDigit_iff.2 hd)
  · decide

theorem MaximalRun.alone {p : Char → Prop} (h : MaximalRun p before l after) :
    MaximalRun p [] l [] := ⟨h.nonempty, h.all, nofun, nofun⟩

/-- What is a token somewhere can be a token. -/
theorem Pattern.Matches.hasLexeme (h : pattern.Matches before k l after) : k.HasLexeme l := by
  refine ⟨pattern, ?_⟩
  cases pattern with
  | word | number => exact ⟨h.1.alone, h.2⟩
  | half => exact ⟨h.1, nofun⟩
  | double | mark | stray => exact h

/-- The kinds of half a double mark. -/
theorem Kind.eq_of_pattern?_half (h : k.pattern? = some .half) : k = .assign ∨ k = .bang := by
  revert h
  cases k <;> decide

namespace Kind.HasLexeme

/-- A token is read as it was written, unless its kind takes in the character behind it. -/
theorem spells_iff (h : k.HasLexeme l) : Spells k l tail ↔ ∀ c ∈ tail.head?, ¬ k.Takes c := by
  constructor
  · intro hs c hc htakes
    have hcut : Cut [] (l ++ tail) := nofun
    obtain ⟨pattern, hm⟩ := hs.exists_matches hcut
    rcases htakes with ⟨hk, hw⟩ | ⟨rfl, hd⟩ | ⟨hk, rfl⟩
    · obtain rfl : .word = pattern := Option.some.inj (hk.symm.trans hm.pattern?_eq)
      exact hm.1.last c hc hw
    · obtain rfl : .number = pattern := Option.some.inj hm.pattern?_eq
      exact hm.1.last c hc hd
    · have hhalf : k.pattern? = some .half := by rcases hk with rfl | rfl <;> rfl
      obtain rfl : .half = pattern := Option.some.inj (hhalf.symm.trans hm.pattern?_eq)
      exact hm.2 hc
  · intro htail
    obtain ⟨pattern, hm⟩ := h
    have hk := hm.pattern?_eq
    -- the pattern that the text matches alone is the one that it matches in front of `tail`
    have hmatches : pattern.Matches [] k l tail := by
      cases pattern with
      | word =>
        refine ⟨⟨hm.1.nonempty, hm.1.all, nofun, ?_⟩, hm.2⟩
        intro c hc hw
        exact htail c hc (.inl ⟨hk, hw⟩)
      | number =>
        refine ⟨⟨hm.1.nonempty, hm.1.all, nofun, ?_⟩, hm.2⟩
        intro c hc hd
        exact htail c hc (.inr (.inl ⟨hm.2, hd⟩))
      | half =>
        refine ⟨hm.1, ?_⟩
        intro hc
        exact htail '=' hc (.inr (.inr ⟨eq_of_pattern?_half hk, rfl⟩))
      | double | mark | stray => exact hm
    exact hmatches.spells

/-- A token is not empty, and does not begin with a blank. -/
theorem exists_cons (h : k.HasLexeme l) : ∃ c cs, l = c :: cs ∧ ¬ isBlank c := by
  have halone : Spells k l [] := h.spells_iff.2 nofun
  obtain ⟨c, cs, hl, hb, -⟩ := halone
  exact ⟨c, cs, hl, hb⟩

theorem ne_eof (h : k.HasLexeme l) : k ≠ .eof := by
  obtain ⟨pattern, hm⟩ := h
  rintro rfl
  exact absurd hm.pattern?_eq nofun

/-- What kind of token begins with a letter, with a digit and with `=`. -/
theorem head {c : Char} {cs : List Char} (h : k.HasLexeme (c :: cs)) :
    (IsWordChar c ↔ k.pattern? = some .word) ∧ (IsDecimal c ↔ k = .int) ∧
      (c = '=' ↔ k = .assign ∨ k = .equal) := by
  have hequal : ¬ IsWordChar '=' ∧ ¬ IsDecimal '=' := by decide
  obtain ⟨pattern, hm⟩ := h
  have hk := hm.pattern?_eq
  cases pattern with
  | word =>
    have hw := hm.1.all c List.mem_cons_self
    have hd : ¬ IsDecimal c := fun hd => hd.not_isWordChar hw
    have hc : c ≠ '=' := by
      rintro rfl
      exact hequal.1 hw
    refine ⟨iff_of_true hw hk, iff_of_false hd ?_, iff_of_false hc ?_⟩
    · rintro rfl
      exact absurd hk nofun
    · rintro (rfl | rfl) <;> exact absurd hk nofun
  | number =>
    have hd := hm.1.all c List.mem_cons_self
    have hc : c ≠ '=' := by
      rintro rfl
      exact hequal.2 hd
    obtain rfl := hm.2
    exact ⟨iff_of_false hd.not_isWordChar nofun, iff_of_true hd rfl, iff_of_false hc nofun⟩
  | stray =>
    obtain ⟨rfl, d, hl, hw, hd, hsign⟩ := hm
    obtain ⟨rfl, rfl⟩ := List.cons.inj hl
    have hc : c ≠ '=' := by
      rintro rfl
      exact hsign (by decide)
    exact ⟨iff_of_false hw nofun, iff_of_false hd nofun, iff_of_false hc nofun⟩
  | double =>
    simp only [Pattern.Matches, Pattern.doubles, List.mem_cons, Prod.mk.injEq, List.cons.injEq,
      List.not_mem_nil, or_false] at hm
    rcases hm with ⟨⟨rfl, -⟩, rfl⟩ | ⟨⟨rfl, -⟩, rfl⟩ <;> decide
  | half =>
    obtain ⟨hm, -⟩ := hm
    simp only [Pattern.halves, List.mem_cons, Prod.mk.injEq, List.cons.injEq, List.not_mem_nil,
      or_false] at hm
    rcases hm with ⟨⟨rfl, -⟩, rfl⟩ | ⟨⟨rfl, -⟩, rfl⟩ <;> decide
  | mark =>
    have hmarks : ∀ p ∈ Pattern.marks,
        (IsWordChar (p.1.headD ' ') ↔ p.2.pattern? = some .word) ∧
          (IsDecimal (p.1.headD ' ') ↔ p.2 = .int) ∧
          (p.1.headD ' ' = '=' ↔ p.2 = .assign ∨ p.2 = .equal) := by decide
    exact hmarks _ hm

/-- A token takes in the beginning of another one if and only if the two merge. -/
theorem takes_iff {c : Char} {cs : List Char} (h : k'.HasLexeme (c :: cs)) :
    k.Takes c ↔ k.Merges k' := by
  obtain ⟨hw, hd, hc⟩ := h.head
  unfold Kind.Takes Kind.Merges
  rw [hw, hd, hc]

end Kind.HasLexeme

/-! ### Layouts -/

/-- A token to be written, with blanks before it. -/
structure Chunk where
  gap : List Char
  kind : Kind
  lexeme : List Char
  blank : ∀ c ∈ gap, isBlank c
  hasLexeme : kind.HasLexeme lexeme

namespace Chunk

/-- The chunk `b` is kept apart from the chunk `a` before it, if this is needed. -/
def Apart (a b : Chunk) : Prop := a.kind.Merges b.kind → b.gap ≠ []

instance : DecidableRel Apart := fun a b =>
  inferInstanceAs (Decidable (a.kind.Merges b.kind → b.gap ≠ []))

/-- Chunks one behind the other, and `last` behind them. -/
def text (last : List Char) : List Chunk → List Char
  | [] => last
  | a :: cs => a.gap ++ (a.lexeme ++ text last cs)

/-- The token of a chunk that starts at byte `n` of its text, with the offsets that it has there. -/
def token (file : String) (n : Nat) (a : Chunk) : Token :=
  ⟨a.kind, String.ofList a.lexeme,
    ⟨n + byteWidth a.gap, n + byteWidth a.gap + byteWidth a.lexeme, file⟩⟩

/-- The tokens of chunks of which the first one starts at byte `n` of their text. -/
def tokens (file : String) (n : Nat) : List Chunk → List Token
  | [] => []
  | a :: cs => a.token file n :: tokens file (n + byteWidth a.gap + byteWidth a.lexeme) cs

end Chunk

/-- The token with offsets that a position can hold. -/
def Token.saturated (t : Token) : Token :=
  { t with span := .between t.span.start t.span.stop t.span.file }

/-- Tokens to be written, with blanks before, between and behind them. -/
structure Layout where
  chunks : List Chunk
  last : List Char
  blank : ∀ c ∈ last, isBlank c

namespace Layout

def text (s : Layout) : String := String.ofList (Chunk.text s.last s.chunks)

/-- The tokens that are written, and the end token behind them. -/
def tokens (s : Layout) (file : Option String) : List Token :=
  Chunk.tokens (file.getD defaultFile) 0 s.chunks ++ [endToken s.text file]

end Layout

/-! ### Reading chunks -/

namespace Chunk

variable {last : List Char} {file : String} {n : Nat} {cs : List Chunk}

/-- A token is read as it was written if and only if the next one is apart from it. -/
theorem spells_iff (a : Chunk) (cs : List Chunk) (hb : ∀ c ∈ last, isBlank c) :
    Spells a.kind a.lexeme (text last cs) ↔ ∀ b ∈ cs.head?, a.Apart b := by
  rw [a.hasLexeme.spells_iff]
  cases cs with
  | nil =>
    refine iff_of_true ?_ nofun
    intro c hc htakes
    exact htakes.not_isBlank (hb c (List.mem_of_head? hc))
  | cons b cs =>
    simp only [List.head?_cons, Option.mem_some_iff, forall_eq', Apart, text]
    cases hgap : b.gap with
    | nil =>
      obtain ⟨c, ds, hl, -⟩ := b.hasLexeme.exists_cons
      have hlexeme := b.hasLexeme
      rw [hl] at hlexeme
      simp [hl, hlexeme.takes_iff]
    | cons c ds =>
      refine iff_of_true ?_ fun _ => List.cons_ne_nil c ds
      rintro _ ⟨⟩ htakes
      exact htakes.not_isBlank (b.blank c (hgap ▸ List.mem_cons_self))

/-- Chunks that are apart from each other lie in their text as they were written. -/
theorem laid_text (h : cs.IsChain Apart) (hb : ∀ c ∈ last, isBlank c) :
    Laid file n (text last cs) ((tokens file n cs).map Token.saturated) := by
  induction cs generalizing n with
  | nil => exact .blanks hb
  | cons a cs ih =>
    obtain ⟨hnext, hrest⟩ := List.isChain_cons.1 h
    exact .token a.blank ((a.spells_iff cs hb).2 hnext) a.hasLexeme.ne_eof (ih hrest)

end Chunk

/-- A token that is read where some text stands is spelt by that text. -/
theorem Scanner.spells_of_next {file : String} {n : Nat} {gap : List Char}
    (hb : ∀ c ∈ gap, isBlank c) (hl : ∃ c cs, l = c :: cs ∧ ¬ isBlank c)
    (hk : (⟨file, n, gap ++ (l ++ tail)⟩ : Scanner).next.1.kind = k)
    (ht : (⟨file, n, gap ++ (l ++ tail)⟩ : Scanner).next.1.literal = String.ofList l) :
    Spells k l tail := by
  obtain ⟨c, cs, rfl, hc⟩ := hl
  have hskip : (⟨file, n, gap ++ (c :: cs ++ tail)⟩ : Scanner).skipBlanks =
      ⟨file, n + byteWidth gap, c :: (cs ++ tail)⟩ :=
    skipBlanks_append hb (by rintro _ ⟨⟩; exact hc)
  rw [next, hskip] at hk ht
  refine ⟨c, cs, rfl, hc, Prod.ext hk ?_⟩
  exact String.ofList_injective ht

namespace Chunk

variable {last : List Char} {file : String} {n : Nat} {cs : List Chunk}

/-- If chunks are read as they were written, then they are apart from each other.  The spans are not
needed for this. -/
theorem isChain_of_upcoming (hb : ∀ c ∈ last, isBlank c)
    (h : (⟨file, n, text last cs⟩ : Scanner).upcoming.map (fun t => (t.kind, t.literal)) =
      cs.map fun a => (a.kind, String.ofList a.lexeme)) : cs.IsChain Apart := by
  induction cs generalizing n with
  | nil => exact .nil
  | cons a cs ih =>
    rw [Scanner.upcoming_eq] at h
    split at h
    · exact absurd h nofun
    · rw [List.map_cons, List.map_cons] at h
      obtain ⟨hfirst, hrest⟩ := List.cons.inj h
      obtain ⟨hk, hl⟩ := Prod.mk.inj hfirst
      have hspells : Spells a.kind a.lexeme (text last cs) :=
        Scanner.spells_of_next a.blank a.hasLexeme.exists_cons hk hl
      rw [text, Scanner.next_append a.blank hspells] at hrest
      exact List.isChain_cons.2 ⟨(a.spells_iff cs hb).1 hspells, ih hrest⟩

theorem map_tokens (file : String) (n : Nat) (cs : List Chunk) :
    (tokens file n cs).map (fun t => (t.kind, t.literal)) =
      cs.map fun a => (a.kind, String.ofList a.lexeme) := by
  induction cs generalizing n with
  | nil => rfl
  | cons a cs ih => simp [tokens, token, ih]

/-- Up to the end of their text, chunks have offsets that a position can hold. -/
theorem map_saturated_tokens (h : n + byteWidth (text last cs) ≤ maxOffset) :
    (tokens file n cs).map Token.saturated = tokens file n cs := by
  induction cs generalizing n with
  | nil => rfl
  | cons a cs ih =>
    simp only [text, byteWidth_append] at h
    have hstart : n + byteWidth a.gap ≤ maxOffset := by omega
    have hstop : n + byteWidth a.gap + byteWidth a.lexeme ≤ maxOffset := by omega
    rw [tokens, List.map_cons, ih (by omega)]
    simp [token, Token.saturated, Span.between, Nat.min_eq_left hstart, Nat.min_eq_left hstop]

end Chunk

/-! ### Whole texts -/

theorem saturated_endToken (source : String) (file : Option String) :
    (endToken source file).saturated = (Scanner.ofSource source file).endToken := by
  unfold Scanner.endToken Scanner.skip Scanner.token Scanner.ofSource
  simp [endToken, Token.saturated, byteWidth_toList]

/-- What can be a token is what is a token of some source. -/
theorem Kind.hasLexeme_iff : k.HasLexeme l ↔ ∃ source file, ∃ t ∈ tokenize source file,
    t.kind ≠ .eof ∧ t.kind = k ∧ t.literal = String.ofList l := by
  constructor
  · intro h
    let a : Chunk := ⟨[], k, l, nofun, h⟩
    have hlaid : Laid defaultFile 0 (Chunk.text [] [a]) _ :=
      Chunk.laid_text (.singleton a) nofun
    refine ⟨String.ofList (Chunk.text [] [a]), none, (a.token defaultFile 0).saturated, ?_,
      h.ne_eof, rfl, rfl⟩
    rw [tokenize, Scanner.tokens_eq_upcoming, Scanner.ofSource, String.toList_ofList]
    apply List.mem_append_left
    rw [Option.getD_none, hlaid.upcoming_eq]
    exact List.mem_cons_self
  · rintro ⟨source, file, t, ht, hk, rfl, hl⟩
    obtain ⟨i, hi⟩ := List.mem_iff_getElem?.1 ht
    obtain ⟨before, after, -, pattern, hm, -⟩ := tokenize_longest source file i t hi hk
    rw [hl, String.toList_ofList] at hm
    exact hm.hasLexeme

theorem Layout.ofSource_text (s : Layout) (file : Option String) :
    Scanner.ofSource s.text file = ⟨file.getD defaultFile, 0, Chunk.text s.last s.chunks⟩ := by
  rw [Scanner.ofSource, Layout.text, String.toList_ofList]

/-- Tokens that are apart are read as they were written, with offsets that a position can hold. -/
theorem Layout.tokenize_text {s : Layout} (h : s.chunks.IsChain Chunk.Apart)
    (file : Option String) : tokenize s.text file = (s.tokens file).map Token.saturated := by
  have hlaid : Laid (file.getD defaultFile) 0 (Chunk.text s.last s.chunks) _ :=
    Chunk.laid_text h s.blank
  rw [tokenize, Scanner.tokens_eq_upcoming, ← saturated_endToken, ofSource_text,
    hlaid.upcoming_eq, tokens, List.map_append, List.map_singleton]

/-- **Scanning undoes writing.**  If blanks keep those tokens apart that would merge, then the
tokens of a text are those that it was put together from, with the offsets that they have in it, as
far as positions hold these.  If some neighbours are not kept apart, other tokens are read. -/
theorem tokenize_layout (s : Layout) (file : Option String) :
    (s.chunks.IsChain Chunk.Apart →
      tokenize s.text file = (s.tokens file).map Token.saturated ∧
        (s.text.utf8ByteSize ≤ maxOffset → tokenize s.text file = s.tokens file)) ∧
      ((tokenize s.text file).map (fun t => (t.kind, t.literal)) =
          (s.tokens file).map (fun t => (t.kind, t.literal)) →
        s.chunks.IsChain Chunk.Apart) := by
  constructor
  · intro h
    have htokens := Layout.tokenize_text h file
    refine ⟨htokens, ?_⟩
    intro hsize
    have hwidth : 0 + byteWidth (Chunk.text s.last s.chunks) ≤ maxOffset := by
      rw [byteWidth_eq_utf8ByteSize, Nat.zero_add]
      exact hsize
    rw [htokens, Layout.tokens, List.map_append, Chunk.map_saturated_tokens hwidth,
      List.map_singleton, saturated_endToken, endToken_ofSource file hsize]
  · intro h
    rw [tokenize, Scanner.tokens_eq_upcoming, Layout.tokens, List.map_append, List.map_append,
      Chunk.map_tokens, Layout.ofSource_text] at h
    have hupcoming : (⟨file.getD defaultFile, 0, Chunk.text s.last s.chunks⟩ : Scanner).upcoming.map
        (fun t => (t.kind, t.literal)) = s.chunks.map fun a => (a.kind, String.ofList a.lexeme) :=
      (List.append_inj' h rfl).1
    exact Chunk.isChain_of_upcoming s.blank hupcoming

theorem isWordChar_let : ∀ c ∈ ['l', 'e', 't'], IsWordChar c := by
  rintro c (_ | ⟨_, _ | ⟨_, _ | ⟨_, ⟨⟩⟩⟩⟩) <;> decide

/-- The layout `=== ==é let1` of six tokens, at the end of a line.  Only the third `=` needs a blank
behind it. -/
def assignments : Layout where
  chunks := [
    ⟨[], .equal, ['=', '='], nofun, .double, List.mem_cons_self⟩,
    ⟨[], .assign, ['='], nofun, .half, List.mem_cons_self, nofun⟩,
    ⟨[' '], .equal, ['=', '='], blanks_one, .double, List.mem_cons_self⟩,
    ⟨[], .illegal, ['é'], nofun, .stray, rfl, 'é', rfl, by decide⟩,
    ⟨[' '], .letWord, ['l', 'e', 't'], blanks_one, .word,
      ⟨nofun, isWordChar_let, nofun, nofun⟩, .inl (by decide)⟩,
    ⟨[], .int, ['1'], nofun, .number,
      ⟨nofun, List.forall_mem_singleton.2 (by decide), nofun, nofun⟩, rfl⟩]
  last := ['\n']
  blank := List.forall_mem_singleton.2 rfl

theorem tokenize_layout_assignments :
    assignments.text = "=== ==é let1\n" ∧
      (tokenize assignments.text none).map (fun t => (t.kind, t.literal)) =
        (assignments.tokens none).map (fun t => (t.kind, t.literal)) ∧
      assignments.chunks.IsChain Chunk.Apart ∧
      assignments.text.utf8ByteSize ≤ maxOffset ∧
      tokenize assignments.text none =
        [⟨.equal, "==", ⟨0, 2, "shell"⟩⟩, ⟨.assign, "=", ⟨2, 3, "shell"⟩⟩,
          ⟨.equal, "==", ⟨4, 6, "shell"⟩⟩, ⟨.illegal, "é", ⟨6, 8, "shell"⟩⟩,
          ⟨.letWord, "let", ⟨9, 12, "shell"⟩⟩, ⟨.int, "1", ⟨12, 13, "shell"⟩⟩,
          ⟨.eof, "", ⟨14, 14, "shell"⟩⟩] := by
  have hread : (tokenize assignments.text none).map (fun t => (t.kind, t.literal)) =
      (assignments.tokens none).map (fun t => (t.kind, t.literal)) := by decide +kernel
  have hsize : assignments.text.utf8ByteSize ≤ maxOffset := by decide +kernel
  obtain ⟨hwritten, hapart⟩ := tokenize_layout assignments none
  have hchain := hapart hread
  refine ⟨by decide +kernel, hread, hchain, hsize, ?_⟩
  rw [(hwritten hchain).2 hsize]
  decide +kernel

/-! ### Offsets that positions cannot hold -/

theorem byteWidth_replicate_space (n : Nat) : byteWidth (List.replicate n ' ') = n := by
  induction n with
  | zero => rfl
  | succ n ih =>
    have hspace : ' '.utf8Size = 1 := rfl
    rw [List.replicate_succ, byteWidth_cons, ih, hspace, Nat.add_comm]

/-- Two illegal characters behind `n` spaces. -/
def straysBehind (n : Nat) : Layout where
  chunks := [
    ⟨List.replicate n ' ', .illegal, ['@'], fun _ hc => List.eq_of_mem_replicate hc ▸ rfl, .stray,
      rfl, '@', rfl, by decide⟩,
    ⟨[], .illegal, ['@'], nofun, .stray, rfl, '@', rfl, by decide⟩]
  last := []
  blank := nofun

theorem isChain_straysBehind (n : Nat) : (straysBehind n).chunks.IsChain Chunk.Apart := by
  have hillegal : ¬ Kind.Merges .illegal .illegal := by decide
  exact List.isChain_pair.2 fun hmerges => absurd hmerges hillegal

theorem utf8ByteSize_straysBehind (n : Nat) : (straysBehind n).text.utf8ByteSize = n + 2 := by
  have hsign : '@'.utf8Size = 1 := rfl
  rw [Layout.text, ← byteWidth_eq_utf8ByteSize]
  simp [straysBehind, Chunk.text, byteWidth_replicate_space, hsign]

theorem tokens_straysBehind (n : Nat) : (straysBehind n).tokens none =
    [⟨.illegal, "@", ⟨n, n + 1, "shell"⟩⟩, ⟨.illegal, "@", ⟨n + 1, n + 2, "shell"⟩⟩,
      ⟨.eof, "", ⟨n + 2, n + 2, "shell"⟩⟩] := by
  have hsign : '@'.utf8Size = 1 := rfl
  rw [Layout.tokens, endToken, utf8ByteSize_straysBehind]
  simp [straysBehind, Chunk.tokens, Chunk.token, byteWidth_replicate_space, hsign, defaultFile]

theorem tokenize_straysBehind (n : Nat) : tokenize (straysBehind n).text none =
    [⟨.illegal, "@", .between n (n + 1) "shell"⟩, ⟨.illegal, "@", .between (n + 1) (n + 2) "shell"⟩,
      ⟨.eof, "", .between (n + 2) (n + 2) "shell"⟩] := by
  rw [Layout.tokenize_text (isChain_straysBehind n), tokens_straysBehind]
  rfl

/-- The tokens of a text beyond `maxOffset` bytes are not read with the offsets that they have in
it: here all offsets but the first one are too large. -/
theorem not_tokenize_layout_eq_tokens :
    (straysBehind 4294967295).chunks.IsChain Chunk.Apart ∧
      (straysBehind 4294967295).tokens none =
        [⟨.illegal, "@", ⟨4294967295, 4294967296, "shell"⟩⟩,
          ⟨.illegal, "@", ⟨4294967296, 4294967297, "shell"⟩⟩,
          ⟨.eof, "", ⟨4294967297, 4294967297, "shell"⟩⟩] ∧
      tokenize (straysBehind 4294967295).text none =
        [⟨.illegal, "@", ⟨4294967295, 4294967295, "shell"⟩⟩,
          ⟨.illegal, "@", ⟨4294967295, 4294967295, "shell"⟩⟩,
          ⟨.eof, "", ⟨4294967295, 4294967295, "shell"⟩⟩] ∧
      ¬ ∀ (s : Layout) (file : Option String), s.chunks.IsChain Chunk.Apart →
        tokenize s.text file = s.tokens file := by
  have hapart := isChain_straysBehind 4294967295
  have hwritten := tokens_straysBehind 4294967295
  have hread := tokenize_straysBehind 4294967295
  refine ⟨hapart, hwritten, hread, fun hall => ?_⟩
  have hsame := hall (straysBehind 4294967295) none hapart
  rw [hwritten] at hsame
  exact absurd (hread.symm.trans hsame) (by decide)

end ExprLang
