import ExprLang.Proofs.Parsing.Lookahead
import ExprLang.Proofs.Scanning.Layout

/-!
# Where the tokens of a source start

All tokens of a source are in its file (`file_of_mem_tokenize`), and each starts behind the one
before it, unless offsets saturate (`pairwise_start_tokenize`).  So an offset before the end belongs
to one token only (`start_tokenStream_ne`), and along the stream of tokens the offsets grow until it
stays on the end token (`start_tokenStream_lt_or`).
-/

namespace ExprLang

open Text Lexeme

variable {source : String} {file : Option String} {i j : Nat}

/-! ### Files -/

theorem Laid.file_of_mem {f : String} {n : Nat} {cs : List Char} {ts : List Token}
    (h : Laid f n cs ts) : ∀ t ∈ ts, t.span.file = f := by
  induction h with
  | blanks => exact fun t ht => absurd ht List.not_mem_nil
  | token _ _ _ _ ih => exact List.forall_mem_cons.2 ⟨Span.file_between .., ih⟩

theorem file_of_mem_tokenize {t : Token} (h : t ∈ tokenize source file) :
    t.span.file = file.getD defaultFile := by
  rw [tokenize, Scanner.tokens_eq_upcoming] at h
  rcases List.mem_append.1 h with h | h
  · exact (Scanner.ofSource source file).laid.file_of_mem t h
  · rw [List.mem_singleton.1 h]
    rfl

/-! ### Offsets -/

/-- What is read as a token is not empty. -/
theorem Lexeme.Spells.byteWidth_pos {k : Kind} {l tail : List Char} (h : Spells k l tail) :
    0 < byteWidth l := by
  obtain ⟨c, cs, rfl, -⟩ := h
  rw [byteWidth_cons]
  exact Nat.add_pos_left c.utf8Size_pos _

namespace Laid

variable {f : String} {n : Nat} {cs : List Char} {ts : List Token}

theorem le_start (h : Laid f n cs ts) : ∀ t ∈ ts, min n maxOffset ≤ t.span.start := by
  induction h with
  | blanks => exact fun t ht => absurd ht List.not_mem_nil
  | @token n gap l tail k ts _ _ _ _ ih =>
    refine List.forall_mem_cons.2 ⟨?_, fun t ht => Nat.le_trans ?_ (ih t ht)⟩
    · simp only [Span.between]
      omega
    · omega

theorem start_lt (h : Laid f n cs ts) : ∀ t ∈ ts, t.span.start < n + byteWidth cs := by
  induction h with
  | blanks => exact fun t ht => absurd ht List.not_mem_nil
  | @token n gap l tail k ts _ hl _ _ ih =>
    have hpos := hl.byteWidth_pos
    rw [byteWidth_append, byteWidth_append]
    refine List.forall_mem_cons.2 ⟨?_, fun t ht => ?_⟩
    · simp only [Span.between]
      omega
    · have ht := ih t ht
      omega

/-- Every token starts behind the ones before it, as long as offsets do not saturate. -/
theorem pairwise_start (h : Laid f n cs ts) :
    ts.Pairwise fun t u => t.span.start < maxOffset → t.span.start < u.span.start := by
  induction h with
  | blanks => exact .nil
  | @token n gap l tail k ts _ hl _ h ih =>
    refine List.pairwise_cons.2 ⟨fun u hu hmax => ?_, ih⟩
    have hpos := hl.byteWidth_pos
    have hu := h.le_start u hu
    simp only [Span.between] at hmax ⊢
    omega

end Laid

theorem start_endToken_ofSource (source : String) (file : Option String) :
    (Scanner.ofSource source file).endToken.span.start = min source.utf8ByteSize maxOffset := by
  unfold Scanner.endToken Scanner.skip Scanner.token Scanner.ofSource Span.between
  simp only [List.take_length, Nat.zero_add, byteWidth_toList]

theorem start_lt_of_mem_upcoming {t : Token} (h : t ∈ (Scanner.ofSource source file).upcoming) :
    t.span.start < source.utf8ByteSize := by
  have hlt : t.span.start < 0 + byteWidth source.toList :=
    (Scanner.ofSource source file).laid.start_lt t h
  rwa [byteWidth_toList, Nat.zero_add] at hlt

theorem pairwise_start_tokenize (source : String) (file : Option String) :
    (tokenize source file).Pairwise fun t u =>
      t.span.start < maxOffset → t.span.start < u.span.start := by
  rw [tokenize, Scanner.tokens_eq_upcoming, List.pairwise_append]
  refine ⟨(Scanner.ofSource source file).laid.pairwise_start, List.pairwise_singleton _ _,
    fun t ht u hu hmax => ?_⟩
  rw [List.mem_singleton.1 hu, start_endToken_ofSource]
  exact Nat.lt_min.2 ⟨start_lt_of_mem_upcoming ht, hmax⟩

/-! ### Along the stream -/

section

variable (source : String) (file : Option String)

/-- The stream goes through the tokens before the end token, and stays on that. -/
theorem tokenStream_eq (n : Nat) :
    tokenStream source file n = ((Scanner.ofSource source file).upcoming[n]?).getD
      (Scanner.ofSource source file).endToken := by
  rw [← next_after_ofSource, Scanner.next_after, Scanner.tokens_eq_upcoming,
    List.getD_eq_getElem?_getD]
  rcases Nat.lt_or_ge n (Scanner.ofSource source file).upcoming.length with hn | hn
  · rw [List.getElem?_append_left hn]
  · rw [List.getElem?_append_right hn, List.getElem?_eq_none hn]
    cases n - (Scanner.ofSource source file).upcoming.length with
    | zero => rfl
    | succ k => rfl

theorem tokenStream_of_le (hi : (Scanner.ofSource source file).upcoming.length ≤ i) :
    tokenStream source file i = (Scanner.ofSource source file).endToken := by
  rw [tokenStream_eq, List.getElem?_eq_none hi, Option.getD_none]

end

theorem length_tokenize (source : String) (file : Option String) :
    (tokenize source file).length = (Scanner.ofSource source file).upcoming.length + 1 := by
  rw [tokenize, Scanner.tokens_eq_upcoming, List.length_append, List.length_singleton]

theorem tokenStream_of_getElem? {t : Token} (h : (tokenize source file)[i]? = some t) :
    tokenStream source file i = t := by
  rw [tokenStream, List.getD_eq_getElem?_getD, h, Option.getD_some]

/-- Each token of the stream is one of the source; from the end token on it is the last one. -/
theorem getElem?_min_tokenize (source : String) (file : Option String) (i : Nat) :
    (tokenize source file)[min i (Scanner.ofSource source file).upcoming.length]? =
      some (tokenStream source file i) := by
  have hlt : min i (Scanner.ofSource source file).upcoming.length <
      (tokenize source file).length := by
    rw [length_tokenize]
    omega
  have ht := tokenStream_of_getElem? (List.getElem?_eq_getElem hlt)
  rw [List.getElem?_eq_getElem hlt, ← ht]
  by_cases hi : i ≤ (Scanner.ofSource source file).upcoming.length
  · rw [Nat.min_eq_left hi]
  · rw [tokenStream_of_le source file (by omega), tokenStream_of_le source file (by omega)]

theorem tokenStream_mem (source : String) (file : Option String) (i : Nat) :
    tokenStream source file i ∈ tokenize source file :=
  List.mem_of_getElem? (getElem?_min_tokenize source file i)

/-- The end token is the only one of its kind. -/
theorem kind_tokenStream_eq_eof_iff :
    (tokenStream source file i).kind = .eof ↔
      (Scanner.ofSource source file).upcoming.length ≤ i := by
  constructor
  · intro hk
    refine Nat.le_of_not_lt fun hi => ?_
    have hm : (Scanner.ofSource source file).upcoming[i] ∈
        (Scanner.ofSource source file).tokens.filter (·.kind ≠ .eof) := by
      rw [Scanner.filter_tokens]
      exact List.getElem_mem hi
    rw [tokenStream_eq, List.getElem?_eq_getElem hi, Option.getD_some] at hk
    exact of_decide_eq_true (List.mem_filter.1 hm).2 hk
  · intro hi
    rw [tokenStream_of_le source file hi]
    rfl

/-- A token before the end starts before the tokens behind it, unless its offset saturates. -/
theorem start_tokenStream_lt (hi : (tokenStream source file i).kind ≠ .eof)
    (hmax : (tokenStream source file i).span.start < maxOffset) (hij : i < j) :
    (tokenStream source file i).span.start < (tokenStream source file j).span.start := by
  have hlt : i < (Scanner.ofSource source file).upcoming.length :=
    Nat.lt_of_not_le fun hle => hi (kind_tokenStream_eq_eof_iff.2 hle)
  obtain ⟨hi', hti⟩ := List.getElem?_eq_some_iff.1 (getElem?_min_tokenize source file i)
  obtain ⟨hj', htj⟩ := List.getElem?_eq_some_iff.1 (getElem?_min_tokenize source file j)
  rw [← hti] at hmax ⊢
  rw [← htj]
  exact List.pairwise_iff_getElem.1 (pairwise_start_tokenize source file) _ _ hi' hj' (by omega)
    hmax

/-- Where the offset of a token does not saturate, no other token starts. -/
theorem start_tokenStream_ne (hi : (tokenStream source file i).kind ≠ .eof)
    (hmax : (tokenStream source file i).span.start < maxOffset) (hij : j ≠ i) :
    (tokenStream source file j).span.start ≠ (tokenStream source file i).span.start := by
  rcases Nat.lt_or_gt_of_ne hij with hlt | hgt
  · intro he
    have hj : (tokenStream source file j).kind ≠ .eof := fun hj => hi
      (kind_tokenStream_eq_eof_iff.2
        (Nat.le_trans (kind_tokenStream_eq_eof_iff.1 hj) (Nat.le_of_lt hlt)))
    exact Nat.ne_of_lt (start_tokenStream_lt hj (he ▸ hmax) hlt) he
  · exact Nat.ne_of_gt (start_tokenStream_lt hi hmax hgt)

theorem start_tokenStream_lt_utf8ByteSize (hi : (tokenStream source file i).kind ≠ .eof) :
    (tokenStream source file i).span.start < source.utf8ByteSize := by
  have hlt : i < (Scanner.ofSource source file).upcoming.length :=
    Nat.lt_of_not_le fun hle => hi (kind_tokenStream_eq_eof_iff.2 hle)
  rw [tokenStream_eq, List.getElem?_eq_getElem hlt, Option.getD_some]
  exact start_lt_of_mem_upcoming (List.getElem_mem hlt)

theorem start_tokenStream_of_eof (hi : (tokenStream source file i).kind = .eof) :
    (tokenStream source file i).span.start = min source.utf8ByteSize maxOffset := by
  rw [tokenStream_of_le source file (kind_tokenStream_eq_eof_iff.1 hi), start_endToken_ofSource]

/-- Offsets grow along the stream, up to the end of the source. -/
theorem start_tokenStream_lt_or (file : Option String) (h : source.utf8ByteSize ≤ maxOffset)
    (hij : i < j) :
    (tokenStream source file i).span.start < (tokenStream source file j).span.start ∨
      (tokenStream source file i).span.start = source.utf8ByteSize ∧
        (tokenStream source file j).span.start = source.utf8ByteSize := by
  by_cases hi : (tokenStream source file i).kind = .eof
  · have hj : (tokenStream source file j).kind = .eof :=
      kind_tokenStream_eq_eof_iff.2
        (Nat.le_trans (kind_tokenStream_eq_eof_iff.1 hi) (Nat.le_of_lt hij))
    rw [start_tokenStream_of_eof hi, start_tokenStream_of_eof hj, Nat.min_eq_left h]
    exact .inr ⟨rfl, rfl⟩
  · have hmax := Nat.lt_of_lt_of_le (start_tokenStream_lt_utf8ByteSize hi) h
    exact .inl (start_tokenStream_lt hi hmax hij)

end ExprLang
