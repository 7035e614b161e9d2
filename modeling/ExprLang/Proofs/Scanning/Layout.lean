import ExprLang.Proofs.Printing.Spelling
import ExprLang.Proofs.Scanning.Sequence

/-!
# How tokens lie in their source

`Laid` cuts a text into blanks and tokens, as the scanner does (`Scanner.laid`).  From this follows
what the tokens of a source owe to its bytes (`Covers`): each stands where its span says, none
reaches into the next, and between them there are only blanks.  So nothing of a source is lost.
-/

namespace ExprLang

open Text Lexeme

/-! ### Texts as blanks and tokens -/

/-- The text, which starts at byte `n` of its source, consists of these tokens and of blanks before,
between and behind them. -/
inductive Laid (file : String) : Nat → List Char → List Token → Prop
  | blanks {n : Nat} {gap : List Char} (hb : ∀ b ∈ gap, isBlank b) : Laid file n gap []
  | token {n : Nat} {gap l tail : List Char} {k : Kind} {ts : List Token}
      (hb : ∀ b ∈ gap, isBlank b) (hl : Spells k l tail) (hk : k ≠ .eof)
      (h : Laid file (n + byteWidth gap + byteWidth l) tail ts) :
      Laid file n (gap ++ (l ++ tail))
        (⟨k, String.ofList l,
          Span.between (n + byteWidth gap) (n + byteWidth gap + byteWidth l) file⟩ :: ts)

/-- A token is the beginning of the text that it is read from. -/
theorem Lexeme.exists_leading_append (c : Char) (cs : List Char) :
    ∃ ds tail, leading c cs = ((leading c cs).1, c :: ds) ∧ cs = ds ++ tail := by
  unfold leading
  split
  · exact ⟨_, _, rfl, (List.takeWhile_append_dropWhile ..).symm⟩
  · split
    · exact ⟨_, _, rfl, (List.takeWhile_append_dropWhile ..).symm⟩
    · split
      · exact ⟨['='], _, rfl, rfl⟩
      · exact ⟨['='], _, rfl, rfl⟩
      · exact ⟨[], cs, rfl, rfl⟩

namespace Scanner

/-- The blanks are skipped, all of them. -/
theorem exists_skipBlanks (s : Scanner) :
    ∃ gap, (∀ b ∈ gap, isBlank b) ∧ s.rest = gap ++ s.skipBlanks.rest ∧
      ∀ c ∈ s.skipBlanks.rest.head?, ¬ isBlank c := by
  have hp : s.rest.takeWhile isBlank <+: s.rest := List.takeWhile_prefix _
  have hsplit : s.rest = s.rest.takeWhile isBlank ++ s.skipBlanks.rest :=
    (List.prefix_iff_eq_append.1 hp).symm
  refine ⟨s.rest.takeWhile isBlank, fun b hb => ?_, hsplit, ?_⟩
  · exact List.all_eq_true.1 List.all_takeWhile b hb
  · exact not_head?_of_takeWhile_append (congrArg (List.takeWhile isBlank) hsplit).symm

theorem skip_length_append (file : String) (n : Nat) (cs ds : List Char) :
    (⟨file, n, cs ++ ds⟩ : Scanner).skip cs.length = ⟨file, n + byteWidth cs, ds⟩ := by
  unfold skip
  rw [List.take_left, List.drop_left]

theorem skipBlanks_append {file : String} {n : Nat} {gap cs : List Char}
    (hb : ∀ b ∈ gap, isBlank b) (hc : ∀ c ∈ cs.head?, ¬ isBlank c) :
    (⟨file, n, gap ++ cs⟩ : Scanner).skipBlanks = ⟨file, n + byteWidth gap, cs⟩ := by
  unfold skipBlanks
  rw [takeWhile_append_tail hb hc]
  exact skip_length_append file n gap cs

/-- The token that is spelt behind some blanks, and the place behind it. -/
theorem next_append {file : String} {n : Nat} {k : Kind} {gap l tail : List Char}
    (hb : ∀ b ∈ gap, isBlank b) (h : Spells k l tail) :
    (⟨file, n, gap ++ (l ++ tail)⟩ : Scanner).next =
      (⟨k, String.ofList l,
        Span.between (n + byteWidth gap) (n + byteWidth gap + byteWidth l) file⟩,
        ⟨file, n + byteWidth gap + byteWidth l, tail⟩) := by
  obtain ⟨c, cs, rfl, hc, hl⟩ := h
  have hskip := skip_length_append file (n + byteWidth gap) (c :: cs) tail
  unfold next
  rw [skipBlanks_append hb (by rintro _ ⟨⟩; exact hc), List.cons_append]
  simp only [read, hl]
  rw [← hskip]
  rfl

/-- Unless the end token is next, what is left to read begins with blanks and a token. -/
theorem exists_spells {s : Scanner} (h : s.next.1.kind ≠ .eof) :
    ∃ k gap l tail, (∀ b ∈ gap, isBlank b) ∧ Spells k l tail ∧ k ≠ .eof ∧
      s.rest = gap ++ (l ++ tail) := by
  obtain ⟨gap, hb, hrest, hhead⟩ := exists_skipBlanks s
  cases hr : s.skipBlanks.rest with
  | nil =>
    refine absurd ?_ h
    unfold next read
    rw [hr]
    rfl
  | cons c cs =>
    rw [hr] at hrest hhead
    obtain ⟨ds, tail, hl, rfl⟩ := exists_leading_append c cs
    exact ⟨_, gap, c :: ds, tail, hb, ⟨c, ds, rfl, hhead c rfl, hl⟩, kind_leading_ne_eof _ _,
      hrest⟩

/-- What is left to read consists of the upcoming tokens and of blanks. -/
theorem laid (s : Scanner) : Laid s.file s.offset s.rest s.upcoming := by
  induction hn : s.rest.length using Nat.strongRecOn generalizing s with
  | ind n ih =>
    subst hn
    rw [upcoming_eq]
    split
    · rename_i hk
      obtain ⟨gap, hb, hrest, -⟩ := exists_skipBlanks s
      rw [hrest, rest_skipBlanks_of_eof hk, List.append_nil]
      exact .blanks hb
    · rename_i hk
      have hlaid := ih _ (length_rest_next_lt hk) s.next.2 rfl
      obtain ⟨k, gap, l, tail, hb, hspells, hne, hrest⟩ := exists_spells hk
      obtain ⟨file, offset, rest⟩ := s
      obtain rfl : rest = gap ++ (l ++ tail) := hrest
      rw [next_append hb hspells] at hlaid ⊢
      exact .token hb hspells hne hlaid

end Scanner

/-! ### Bytes -/

theorem Text.byteWidth_eq_utf8ByteSize (cs : List Char) :
    byteWidth cs = (String.ofList cs).utf8ByteSize := by
  rw [← String.size_toByteArray, String.toByteArray_ofList]
  induction cs with
  | nil => rfl
  | cons c cs ih =>
    rw [byteWidth_cons, ih, List.utf8Encode_cons, ByteArray.size_append, List.utf8Encode_singleton,
      List.size_toByteArray, String.length_utf8EncodeChar]

theorem Text.byteWidth_toList (s : String) : byteWidth s.toList = s.utf8ByteSize := by
  rw [byteWidth_eq_utf8ByteSize, String.ofList_toList]

/-- The bytes in the middle of a text. -/
theorem extract_append_append (p m q : String) :
    (p ++ (m ++ q)).toByteArray.extract p.utf8ByteSize (p.utf8ByteSize + m.utf8ByteSize) =
      m.toByteArray := by
  have h := ByteArray.extract_append_size_add (a := p.toByteArray)
    (b := m.toByteArray ++ q.toByteArray) (i := 0) (j := m.toByteArray.size)
  rw [Nat.add_zero, ByteArray.extract_append_eq_left rfl] at h
  rw [String.toByteArray_append, String.toByteArray_append, ← String.size_toByteArray,
    ← String.size_toByteArray, h]

theorem isValid_append (p q : String) : (⟨p.utf8ByteSize⟩ : String.Pos.Raw).IsValid (p ++ q) :=
  String.Pos.Raw.isValid_iff_exists_append.2 ⟨p, q, rfl, rfl⟩

/-- A space, a tab, the end of a line or a carriage return. -/
def IsBlankByte (b : UInt8) : Prop := b = 0x20 ∨ b = 0x09 ∨ b = 0x0a ∨ b = 0x0d

/-- Blanks are one byte wide each. -/
theorem isBlankByte_of_mem {gap : List Char} (hb : ∀ c ∈ gap, isBlank c) :
    ∀ b ∈ (String.ofList gap).toByteArray.data, IsBlankByte b := by
  intro b h
  rw [String.toByteArray_ofList, List.utf8Encode] at h
  simp only [List.data_toByteArray, List.mem_toArray, List.mem_flatMap] at h
  obtain ⟨c, hc, hbc⟩ := h
  unfold IsBlankByte
  rcases eq_of_isBlank (hb c hc) with rfl | rfl | rfl | rfl
  · exact .inl (List.mem_singleton.1 hbc)
  · exact .inr (.inl (List.mem_singleton.1 hbc))
  · exact .inr (.inr (.inl (List.mem_singleton.1 hbc)))
  · exact .inr (.inr (.inr (List.mem_singleton.1 hbc)))

/-! ### Tokens and the bytes of their source -/

/-- What stands from byte `start` on before, between and behind tokens. -/
def gaps (source : String) (start : Nat) : List Token → List ByteArray
  | [] => [source.toByteArray.extract start source.utf8ByteSize]
  | t :: ts => source.toByteArray.extract start t.span.start :: gaps source t.span.stop ts

/-- Gaps and texts in turn, beginning with a gap. -/
def interleave : List ByteArray → List ByteArray → ByteArray
  | [], _ => ByteArray.empty
  | g :: _, [] => g
  | g :: gs, l :: ls => g ++ (l ++ interleave gs ls)

/-- The tokens are all that there is in the source from byte `start` on, apart from blanks. -/
structure Covers (source : String) (start : Nat) (ts : List Token) : Prop where
  /-- no token is the end token, and none is empty -/
  lexemes : ∀ t ∈ ts, t.kind ≠ .eof ∧ t.literal ≠ ""
  /-- the bytes of a token are those of its span -/
  bytes : ∀ t ∈ ts, source.toByteArray.extract t.span.start t.span.stop = t.literal.toByteArray
  /-- no token starts or stops inside a character -/
  boundaries : ∀ t ∈ ts, (⟨t.span.start⟩ : String.Pos.Raw).IsValid source ∧
    (⟨t.span.stop⟩ : String.Pos.Raw).IsValid source
  /-- every token starts where the one before it stops, or behind that -/
  ordered : ts.Pairwise fun t u => t.span.stop ≤ u.span.start
  starts : ∀ t ∈ ts, start ≤ t.span.start
  /-- what stands between tokens is blank -/
  blank : ∀ gap ∈ gaps source start ts, ∀ b ∈ gap.data, IsBlankByte b
  /-- with what stands between them the tokens give the source again -/
  whole : interleave (gaps source start ts) (ts.map (·.literal.toByteArray)) =
    source.toByteArray.extract start source.utf8ByteSize

theorem covers_nil {source : String} {start : Nat}
    (h : ∀ b ∈ (source.toByteArray.extract start source.utf8ByteSize).data, IsBlankByte b) :
    Covers source start [] := by
  refine ⟨nofun, nofun, nofun, .nil, nofun, fun gap hgap => ?_, rfl⟩
  rw [List.mem_singleton.1 hgap]
  exact h

/-- A token in front of others, with blanks before it. -/
theorem Covers.cons {source : String} {start : Nat} {t : Token} {ts : List Token}
    (h : Covers source t.span.stop ts) (hlexeme : t.kind ≠ .eof ∧ t.literal ≠ "")
    (hbytes : source.toByteArray.extract t.span.start t.span.stop = t.literal.toByteArray)
    (hbounds : (⟨t.span.start⟩ : String.Pos.Raw).IsValid source ∧
      (⟨t.span.stop⟩ : String.Pos.Raw).IsValid source)
    (hstart : start ≤ t.span.start) (hspan : t.span.start ≤ t.span.stop)
    (hblank : ∀ b ∈ (source.toByteArray.extract start t.span.start).data, IsBlankByte b) :
    Covers source start (t :: ts) where
  lexemes := List.forall_mem_cons.2 ⟨hlexeme, h.lexemes⟩
  bytes := List.forall_mem_cons.2 ⟨hbytes, h.bytes⟩
  boundaries := List.forall_mem_cons.2 ⟨hbounds, h.boundaries⟩
  ordered := List.pairwise_cons.2 ⟨h.starts, h.ordered⟩
  starts := List.forall_mem_cons.2 ⟨hstart, fun u hu =>
    Nat.le_trans (Nat.le_trans hstart hspan) (h.starts u hu)⟩
  blank := List.forall_mem_cons.2 ⟨hblank, h.blank⟩
  whole := by
    have hstop : t.span.stop ≤ source.utf8ByteSize := hbounds.2.le_utf8ByteSize
    rw [gaps, List.map_cons, interleave, h.whole, ← hbytes,
      ← ByteArray.extract_eq_extract_append_extract _ hspan hstop,
      ← ByteArray.extract_eq_extract_append_extract _ hstart (Nat.le_trans hspan hstop)]

/-- A text that consists of tokens and blanks is covered by the tokens.  Offsets that do not fit a
position would say nothing, so the source may not be longer than they reach. -/
theorem Laid.covers {file : String} {n : Nat} {cs : List Char} {ts : List Token}
    (h : Laid file n cs ts) {source : String} {p : String} (hs : source = p ++ String.ofList cs)
    (hn : p.utf8ByteSize = n) (hmax : source.utf8ByteSize ≤ maxOffset) : Covers source n ts := by
  induction h generalizing p with
  | @blanks n gap hb =>
    subst hn
    have hgap := extract_append_append p (String.ofList gap) ""
    rw [String.append_empty, ← hs, ← String.utf8ByteSize_append, ← hs] at hgap
    refine covers_nil ?_
    rw [hgap]
    exact isBlankByte_of_mem hb
  | @token n gap l tail k ts hblanks hl hk _ ih =>
    subst hn
    rw [byteWidth_eq_utf8ByteSize, byteWidth_eq_utf8ByteSize] at ih ⊢
    rw [String.ofList_append, String.ofList_append] at hs
    have hs' : source = p ++ String.ofList gap ++ (String.ofList l ++ String.ofList tail) :=
      hs.trans String.append_assoc.symm
    have hs'' : source = p ++ String.ofList gap ++ String.ofList l ++ String.ofList tail :=
      hs'.trans String.append_assoc.symm
    have hgap := extract_append_append p (String.ofList gap) (String.ofList l ++ String.ofList tail)
    have htext := extract_append_append (p ++ String.ofList gap) (String.ofList l)
      (String.ofList tail)
    have hfirst := isValid_append (p ++ String.ofList gap) (String.ofList l ++ String.ofList tail)
    have hlast := isValid_append (p ++ String.ofList gap ++ String.ofList l) (String.ofList tail)
    rw [← hs] at hgap
    rw [← hs'] at htext hfirst
    rw [← hs''] at hlast
    have hrest := ih (p := p ++ String.ofList gap ++ String.ofList l) hs''
      (by simp only [String.utf8ByteSize_append])
    simp only [String.utf8ByteSize_append] at htext hfirst hlast
    generalize ha : p.utf8ByteSize + (String.ofList gap).utf8ByteSize = a at *
    generalize hb : a + (String.ofList l).utf8ByteSize = b at *
    have hmax' : b ≤ maxOffset := Nat.le_trans hlast.le_utf8ByteSize hmax
    have hstart : (Span.between a b file).start = a := Span.start_between (by omega) _ _
    have hstop : (Span.between a b file).stop = b := Span.stop_between hmax' _ _
    obtain ⟨c, cs, rfl, -, -⟩ := hl
    refine Covers.cons ?_ ⟨hk, by simp⟩ ?_ ?_ ?_ ?_ ?_
    all_goals simp only [hstart, hstop]
    · exact hrest
    · exact htext
    · exact ⟨hfirst, hlast⟩
    · omega
    · omega
    · rw [hgap]
      exact isBlankByte_of_mem hblanks

/-! ### Sources -/

/-- The end token of a source: it has no text, and stands behind the last byte. -/
def endToken (source : String) (file : Option String) : Token :=
  ⟨.eof, "", ⟨source.utf8ByteSize, source.utf8ByteSize, file.getD defaultFile⟩⟩

theorem endToken_ofSource {source : String} (file : Option String)
    (h : source.utf8ByteSize ≤ maxOffset) :
    (Scanner.ofSource source file).endToken = endToken source file := by
  unfold Scanner.endToken Scanner.skip Scanner.token Scanner.ofSource endToken Span.between
  simp only [List.take_length, byteWidth_nil, Nat.zero_add, Nat.add_zero, byteWidth_toList,
    Nat.min_eq_left h]

/-- The tokens before the end token are all that there is in a source, apart from blanks. -/
theorem covers_upcoming {source : String} (file : Option String)
    (h : source.utf8ByteSize ≤ maxOffset) :
    Covers source 0 (Scanner.ofSource source file).upcoming := by
  refine (Scanner.ofSource source file).laid.covers (p := "") ?_ rfl h
  rw [String.empty_append]
  exact String.ofList_toList.symm

/-- The tokens of a source are its text, cut where the spans say and without the blanks, and one end
token behind them.  A scanner that is asked for one token after the other yields just these, and
then the end token again and again. -/
theorem tokenize_covers (source : String) (file : Option String)
    (h : source.utf8ByteSize ≤ maxOffset) :
    (∃ ts, tokenize source file = ts ++ [endToken source file] ∧ Covers source 0 ts ∧
      interleave (gaps source 0 ts) (ts.map (·.literal.toByteArray)) = source.toByteArray) ∧
    ∀ n, ((Scanner.ofSource source file).after n).next.1 =
        (tokenize source file).getD n (endToken source file) ∧
      ((tokenize source file).length ≤ n → ((Scanner.ofSource source file).after n).atEnd) := by
  have hend := endToken_ofSource file h
  have hcovers : Covers source 0 (Scanner.ofSource source file).upcoming := covers_upcoming file h
  refine ⟨⟨(Scanner.ofSource source file).upcoming, ?_, hcovers, ?_⟩, fun n => ⟨?_, ?_⟩⟩
  · rw [tokenize, Scanner.tokens_eq_upcoming, hend]
  · rw [hcovers.whole, ← String.size_toByteArray, ByteArray.extract_zero_size]
  · rw [Scanner.next_after, hend, tokenize]
  · exact Scanner.atEnd_after

/-- An illegal character of two bytes, and an operator of two characters behind a blank. -/
theorem tokenize_covers_accent :
    "é ==".utf8ByteSize ≤ maxOffset ∧
    Covers "é ==" 0 [⟨.illegal, "é", ⟨0, 2, "shell"⟩⟩, ⟨.equal, "==", ⟨3, 5, "shell"⟩⟩] ∧
    ((Scanner.ofSource "é ==" none).after 7).next.1 = ⟨.eof, "", ⟨5, 5, "shell"⟩⟩ := by
  have hsize : "é ==".utf8ByteSize ≤ maxOffset := by decide
  have htokens : tokenize "é ==" none = [⟨.illegal, "é", ⟨0, 2, "shell"⟩⟩,
      ⟨.equal, "==", ⟨3, 5, "shell"⟩⟩] ++ [endToken "é ==" none] := by decide +kernel
  obtain ⟨⟨ts, hts, hcovers, -⟩, hn⟩ := tokenize_covers "é ==" none hsize
  rw [htokens] at hts hn
  rw [← List.append_cancel_right hts] at hcovers
  exact ⟨hsize, hcovers, (hn 7).1⟩

end ExprLang
