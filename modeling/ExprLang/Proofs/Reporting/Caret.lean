import ExprLang.Diagnostic.Report
import ExprLang.Proofs.Recovery.Reports
import ExprLang.Proofs.Reporting.Lines
import Mathlib.Data.List.DropRight

/-!
# Carets point at tokens

A report ends with the line that it is about and a caret below it.  Bytes, characters and columns
are three ways to count here, and `Pointing` says how they go together: the caret stands as many
characters behind the beginning of the shown text as there are in the line between its indentation
and the offset.  An offset where no blank stands is never inside the indentation, and it is between
two characters (`StandsAt`).  All reports of a source are at such offsets, since they are about
tokens (`report_points`).
-/

namespace ExprLang

open Text Lexeme

/-! ### Places in a source -/

/-- The offset cuts the source in two parts, and the second one does not begin with a blank. -/
structure StandsAt (source : String) (offset : Nat) (before rest : List Char) : Prop where
  text : source.toList = before ++ rest
  width : byteWidth before = offset
  unblank : ∀ c ∈ rest.head?, ¬ isBlank c

/-- Of two ways to cut a text, the one that comes first leaves the middle. -/
theorem Text.exists_middle {xs ys zs ws : List Char} (h : xs ++ ys = zs ++ ws)
    (hle : byteWidth xs ≤ byteWidth zs) : ∃ ms, zs = xs ++ ms ∧ ys = ms ++ ws := by
  rcases List.append_eq_append_iff.1 h with hms | ⟨ms, rfl, rfl⟩
  · exact hms
  · rw [byteWidth_append] at hle
    cases ms with
    | nil => exact ⟨[], by simp, rfl⟩
    | cons c cs =>
      have hpos := c.utf8Size_pos
      rw [byteWidth_cons] at hle
      omega

/-- A token that is laid in a text stands where its span starts. -/
theorem Laid.exists_of_mem {file : String} {n : Nat} {cs : List Char} {ts : List Token}
    (h : Laid file n cs ts) : ∀ t ∈ ts, ∃ before rest, cs = before ++ rest ∧
      t.span.start = min (n + byteWidth before) maxOffset ∧
      rest.head? = t.literal.toList.head? ∧ ∀ c ∈ rest.head?, ¬ isBlank c := by
  induction h with
  | blanks => exact fun t ht => absurd ht List.not_mem_nil
  | @token n gap l tail k ts _ hl _ _ ih =>
    obtain ⟨c, cs, rfl, hc, -⟩ := hl
    refine List.forall_mem_cons.2 ⟨⟨gap, _, rfl, rfl, ?_, ?_⟩, fun t ht => ?_⟩
    · rw [String.toList_ofList]
      rfl
    · rintro _ ⟨⟩
      exact hc
    · obtain ⟨before, rest, rfl, hstart, hrest⟩ := ih t ht
      refine ⟨gap ++ (c :: cs ++ before), rest, by simp only [List.append_assoc], ?_, hrest⟩
      rw [hstart, byteWidth_append, byteWidth_append, Nat.add_assoc, Nat.add_assoc]

/-- A token of a source stands where its span starts; the end token stands behind all of it. -/
theorem standsAt_of_mem_tokenize {source : String} {file : Option String}
    (h : source.utf8ByteSize ≤ maxOffset) {t : Token} (ht : t ∈ tokenize source file) :
    ∃ before rest, StandsAt source t.span.start before rest ∧
      (t.kind ≠ .eof → rest.head? = t.literal.toList.head?) := by
  rw [tokenize, Scanner.tokens_eq_upcoming] at ht
  rcases List.mem_append.1 ht with ht | ht
  · obtain ⟨before, rest, htext, hstart, hhead, hblank⟩ :=
      (Scanner.ofSource source file).laid.exists_of_mem t ht
    have htext' : source.toList = before ++ rest := htext
    have hstart' : t.span.start = min (0 + byteWidth before) maxOffset := hstart
    have hle : byteWidth before ≤ maxOffset := by
      rw [← byteWidth_toList, htext', byteWidth_append] at h
      exact Nat.le_trans (Nat.le_add_right _ _) h
    refine ⟨before, rest, ⟨htext', ?_, hblank⟩, fun _ => hhead⟩
    rw [hstart', Nat.zero_add, Nat.min_eq_left hle]
  · rw [List.mem_singleton.1 ht]
    refine ⟨source.toList, [], ⟨(List.append_nil _).symm, ?_, ?_⟩, fun hk => absurd rfl hk⟩
    · rw [start_endToken_ofSource, byteWidth_toList, Nat.min_eq_left h]
    · rintro _ ⟨⟩

theorem StandsAt.le_utf8ByteSize {source : String} {offset : Nat} {before rest : List Char}
    (h : StandsAt source offset before rest) : offset ≤ source.utf8ByteSize := by
  rw [← byteWidth_toList, h.text, byteWidth_append, h.width]
  exact Nat.le_add_right _ _

/-- A report is about a place where a token starts, be it the end token. -/
theorem exists_token_of_mem_parse {source : String} {file : Option String} {d : Diagnostic}
    (hd : d ∈ (parse source file).2) :
    ∃ t ∈ tokenize source file, t.span.start = d.position.offset := by
  obtain ⟨n, -, ha⟩ := account_parse source file
  obtain ⟨k, -, -, hb⟩ := ha.exists_blames (Array.mem_toList_iff.2 hd)
  exact ⟨_, tokenStream_mem source file (d.place k), hb.offset_eq.symm⟩

/-! ### The two lines -/

/-- Two lines that point at an offset of a source. -/
structure Pointing (source : String) (offset : Nat) where
  /-- The line of the offset is its indentation, what is shown of it, and white space. -/
  indent : List Char
  shown : List Char
  trailing : List Char
  /-- Behind its indentation it is cut again, at the offset. -/
  between : List Char
  beyond : List Char
  /-- The two lines are the shown one with its number, and the one with the caret. -/
  numbered : List Char
  pointer : List Char
  line : (String.ofList (indent ++ (shown ++ trailing))).toByteArray =
    source.toByteArray.extract (lineStart source offset)
      (lineStop source (lineStart source offset))
  indented : ∀ c ∈ indent, c = ' ' ∨ c = '\t'
  unindented : ∀ c ∈ (shown ++ trailing).head?, c ≠ ' ' ∧ c ≠ '\t'
  blank : ∀ c ∈ trailing, isWhiteSpace c
  trimmed : ∀ c ∈ shown.getLast?, ¬ isWhiteSpace c
  cut : shown ++ trailing = between ++ beyond
  offset_eq : lineStart source offset + byteWidth (indent ++ between) = offset
  numbered_eq : numbered =
    (1 + (newlinesBefore source offset).length).repr.toList ++ (" | ".toList ++ shown)
  newline_not_mem_numbered : '\n' ∉ numbered
  newline_not_mem_pointer : '\n' ∉ pointer
  /-- Their bars stand in one column, -/
  bar : pointer.idxOf '|' = numbered.idxOf '|'
  count_bar : pointer.count '|' = 1
  /-- and the caret as many characters behind the beginning of what is shown as the offset. -/
  caret : pointer.idxOf '^' + shown.length = numbered.length + between.length
  count_caret : pointer.count '^' = 1

namespace Line

/-- The line as it is shown behind its number. -/
def numbered (l : Line) : List Char := l.number.repr.toList ++ (" | ".toList ++ l.shown.toList)

/-- The line below it, with the caret. -/
def pointer (l : Line) : List Char :=
  List.replicate (l.number.repr.length + 1) ' ' ++
    ('|' :: ' ' :: (List.replicate l.caretColumn '-' ++ ['^']))

theorem exists_excerpt (l : Line) : ∃ above, l.excerpt.toList =
    above ++ '\n' :: (l.numbered ++ '\n' :: (l.pointer ++ ['\n'])) := by
  refine ⟨List.replicate (l.number.repr.length + 1) ' ' ++ ['|'], ?_⟩
  unfold excerpt
  simp only [numbered, pointer, String.toList_append, String.toList_ofList,
    List.append_assoc, List.cons_append]
  rfl

theorem isDigit_of_mem_repr {n : Nat} {c : Char} (h : c ∈ n.repr.toList) : c.isDigit := by
  rw [Nat.toList_repr] at h
  exact Nat.isDigit_of_mem_toDigits (by decide) (by decide) h

theorem not_mem_repr {n : Nat} {c : Char} (h : c.isDigit = false) : c ∉ n.repr.toList :=
  fun hc => Bool.false_ne_true (h.symm.trans (isDigit_of_mem_repr hc))

theorem idxOf_bar_numbered (l : Line) : l.numbered.idxOf '|' = l.number.repr.length + 1 := by
  rw [numbered, List.idxOf_append_of_notMem (not_mem_repr rfl), String.length_toList]
  rfl

theorem idxOf_bar_pointer (l : Line) : l.pointer.idxOf '|' = l.number.repr.length + 1 := by
  rw [pointer, List.idxOf_append_of_notMem (by simp), List.length_replicate, List.idxOf_cons_self]

theorem idxOf_caret_pointer (l : Line) :
    l.pointer.idxOf '^' = l.number.repr.length + 3 + l.caretColumn := by
  rw [pointer, List.idxOf_append_of_notMem (by simp), List.length_replicate,
    List.idxOf_cons_ne _ (by decide), List.idxOf_cons_ne _ (by decide),
    List.idxOf_append_of_notMem (by simp), List.length_replicate, List.idxOf_cons_self]
  omega

theorem count_bar_pointer (l : Line) : l.pointer.count '|' = 1 := by
  simp [pointer, List.count_replicate]

theorem count_caret_pointer (l : Line) : l.pointer.count '^' = 1 := by
  simp [pointer, List.count_replicate]

theorem newline_not_mem_pointer (l : Line) : '\n' ∉ l.pointer := by
  simp [pointer]

theorem length_numbered (l : Line) :
    l.numbered.length = l.number.repr.length + 3 + l.shown.toList.length := by
  rw [numbered, List.length_append, List.length_append, String.length_toList, Nat.add_assoc]
  rfl

/-- A character of the shown text stands three behind the number. -/
theorem getElem?_numbered (l : Line) (n : Nat) :
    l.numbered[l.number.repr.length + 3 + n]? = l.shown.toList[n]? := by
  rw [numbered, Nat.add_assoc, ← String.length_toList, List.getElem?_append_right
    (Nat.le_add_right _ _), Nat.add_sub_cancel_left, List.getElem?_append_right
    (Nat.le_add_right 3 n)]
  exact congrArg (l.shown.toList[·]?) (Nat.add_sub_cancel_left 3 n)

/-! ### White space at both ends -/

/-- The white space that ends a line, up to the indentation. -/
def trailing (l : Line) : List Char :=
  (l.text.toList.dropWhile isIndent).rtakeWhile isWhiteSpace

theorem shown_append_trailing (l : Line) :
    l.shown.toList ++ l.trailing = l.text.toList.dropWhile isIndent := by
  rw [shown, String.toList_ofList]
  exact List.rdropWhile_append_rtakeWhile

theorem isWhiteSpace_of_mem_trailing {l : Line} {c : Char} (h : c ∈ l.trailing) :
    isWhiteSpace c := List.mem_rtakeWhile_imp h

theorem not_isWhiteSpace_of_getLast?_shown {l : Line} {c : Char}
    (h : c ∈ l.shown.toList.getLast?) : ¬ isWhiteSpace c := by
  rw [shown, String.toList_ofList] at h
  obtain ⟨hne, hc⟩ := List.mem_getLast?_eq_getLast h
  rw [hc]
  exact List.rdropWhile_last_not _ _ hne

theorem not_isIndent_of_head? {l : Line} {c : Char}
    (h : c ∈ (l.shown.toList ++ l.trailing).head?) : ¬ isIndent c := by
  rw [shown_append_trailing] at h
  have := List.head?_dropWhile_not isIndent l.text.toList
  rw [h] at this
  simpa using this

theorem isBlank_of_isIndent {c : Char} (h : isIndent c) : isBlank c := by
  simp only [isIndent, isBlank, Bool.or_eq_true] at h ⊢
  exact .inl (.inl h)

/-- A cut that no indentation follows is not inside the indentation. -/
theorem exists_between {cs inner tail : List Char} (h : cs = inner ++ tail)
    (htail : ∀ c ∈ tail.head?, ¬ isIndent c) : ∃ between,
      inner = cs.takeWhile isIndent ++ between ∧ cs.dropWhile isIndent = between ++ tail := by
  have hcs : cs.takeWhile isIndent ++ cs.dropWhile isIndent = inner ++ tail :=
    List.takeWhile_append_dropWhile.trans h
  rcases List.append_eq_append_iff.1 hcs with hbetween | ⟨ms, hindent, htail'⟩
  · exact hbetween
  · cases ms with
    | nil => exact ⟨[], by simpa using hindent.symm, htail'.symm⟩
    | cons c ms =>
      have hc : c ∈ cs.takeWhile isIndent := hindent ▸ List.mem_append_right _ List.mem_cons_self
      rw [htail'] at htail
      exact absurd (List.all_eq_true.1 List.all_takeWhile c hc) (htail c rfl)

/-! ### Where the caret stands -/

namespace Within

variable {source : String} {offset : Nat} {b a before rest : List Char} {l : Line}
  (h : Within 1 source.toList offset b a l) (hs : StandsAt source offset before rest)

include h

/-- The newline that ends the line is white space, so it is not shown. -/
theorem newline_not_mem_shown : '\n' ∉ l.shown.toList := by
  obtain ⟨body, ending, htext, hbody, -, hending⟩ := h.ends
  have hblank : ∀ c ∈ ending.head?, ¬ isIndent c := by
    rcases hending with rfl | ⟨rfl, -⟩
    · rintro _ ⟨⟩
      decide
    · exact nofun
  obtain ⟨between, hinner, hbetween⟩ := exists_between htext hblank
  have htrim : trimEnd (between ++ ending) = trimEnd between := by
    rcases hending with rfl | ⟨rfl, -⟩
    · exact List.rdropWhile_concat_pos _ _ _ rfl
    · rw [List.append_nil]
  rw [shown, String.toList_ofList, hbetween, htrim]
  intro hmem
  refine hbody (hinner ▸ List.mem_append_right _ ?_)
  exact (List.rdropWhile_prefix isWhiteSpace between).subset hmem

theorem newline_not_mem_numbered : '\n' ∉ l.numbered := by
  rw [numbered, List.mem_append, List.mem_append, not_or, not_or]
  exact ⟨not_mem_repr rfl, by decide, h.newline_not_mem_shown⟩

include hs

/-- A place of the source in a line is a place of the line, and what follows it begins the same. -/
theorem exists_cut : ∃ inner tail, l.text.toList = inner ++ tail ∧ byteWidth inner = l.column ∧
    rest.head? = tail.head? := by
  obtain ⟨body, ending, htext, -, hcolumn, hending⟩ := h.ends
  have hoffset := h.column
  have hwidth := hs.width
  obtain ⟨inner, rfl, hinner⟩ := exists_middle (h.text.symm.trans hs.text) (by omega)
  rw [byteWidth_append] at hwidth
  have hle : byteWidth inner ≤ byteWidth l.text.toList := by
    rw [htext, byteWidth_append]
    omega
  obtain ⟨tail, htail, rfl⟩ := exists_middle hinner.symm hle
  refine ⟨inner, tail, htail, by omega, ?_⟩
  cases tail with
  | cons c cs => rfl
  | nil =>
    rcases hending with rfl | ⟨-, rfl⟩
    · -- a line that ends with a newline has no place behind it
      have hnewline := congrArg byteWidth (htail.symm.trans htext)
      rw [List.append_nil, byteWidth_append] at hnewline
      have hpos : 0 < byteWidth ['\n'] := by decide
      omega
    · rfl

/-- Inside the line the caret is counted in characters, and from the indentation on. -/
theorem exists_caretColumn : ∃ between tail,
    l.text.toList.dropWhile isIndent = between ++ tail ∧
    byteWidth (l.text.toList.takeWhile isIndent ++ between) = l.column ∧
    l.caretColumn = between.length ∧ rest.head? = tail.head? := by
  obtain ⟨inner, tail, htext, hwidth, hhead⟩ := h.exists_cut hs
  obtain ⟨between, hinner, hbetween⟩ := exists_between htext fun c hc =>
    mt isBlank_of_isIndent (hs.unblank c (hhead ▸ hc))
  have hchars : l.charColumn = inner.length := by
    rw [charColumn, htext, ← hwidth, charsWithin?_byteWidth, Nat.zero_add]
    rfl
  refine ⟨between, tail, hbetween, hinner ▸ hwidth, ?_, hhead⟩
  rw [caretColumn, hchars, hinner, List.length_append, Nat.add_sub_cancel_left]

/-- Above the caret stands the character at the offset, if it is visible. -/
theorem getElem?_numbered_caret {c : Char} (hc : c ∈ rest.head?) (hvisible : ¬ isWhiteSpace c) :
    l.numbered[l.pointer.idxOf '^']? = some c := by
  obtain ⟨between, tail, hbetween, -, hcaret, hhead⟩ := h.exists_caretColumn hs
  rw [← shown_append_trailing] at hbetween
  have htail : (l.shown.toList ++ l.trailing)[between.length]? = some c := by
    rw [hbetween, List.getElem?_append_right (Nat.le_refl _), Nat.sub_self,
      ← List.head?_eq_getElem?]
    exact hhead ▸ hc
  rw [idxOf_caret_pointer, hcaret, getElem?_numbered]
  rcases Nat.lt_or_ge between.length l.shown.toList.length with hlt | hge
  · rw [← htail, List.getElem?_append_left hlt]
  · rw [List.getElem?_append_right hge] at htail
    exact absurd (isWhiteSpace_of_mem_trailing (List.mem_of_getElem? htail)) hvisible

theorem exists_pointing : ∃ p : Pointing source offset,
    p.numbered = l.numbered ∧ p.pointer = l.pointer := by
  obtain ⟨between, tail, hbetween, hwidth, hcaret, -⟩ := h.exists_caretColumn hs
  have hshown := l.shown_append_trailing
  have hoffset := h.column
  refine ⟨{
    indent := l.text.toList.takeWhile isIndent
    shown := l.shown.toList
    trailing := l.trailing
    between := between
    beyond := tail
    numbered := l.numbered
    pointer := l.pointer
    line := ?line
    indented := fun c hc => ?indented
    unindented := fun c hc => ?unindented
    blank := fun c => isWhiteSpace_of_mem_trailing
    trimmed := fun c => not_isWhiteSpace_of_getLast?_shown
    cut := hshown.trans hbetween
    offset_eq := by rw [hwidth, h.lineStart_eq, hoffset]
    numbered_eq := by
      rw [numbered, h.number, h.newlinesBefore_eq, List.length_idxsOf, count_octets]
    newline_not_mem_numbered := h.newline_not_mem_numbered
    newline_not_mem_pointer := l.newline_not_mem_pointer
    bar := l.idxOf_bar_pointer.trans l.idxOf_bar_numbered.symm
    count_bar := l.count_bar_pointer
    caret := ?caret
    count_caret := l.count_caret_pointer }, rfl, rfl⟩
  case line =>
    rw [hshown, List.takeWhile_append_dropWhile, String.ofList_toList, h.lineStart_eq,
      h.lineStop_eq, h.extract_eq]
  case indented =>
    have hindent := List.all_eq_true.1 List.all_takeWhile c hc
    simpa [isIndent] using hindent
  case unindented =>
    have hindent := not_isIndent_of_head? hc
    simpa [isIndent] using hindent
  case caret =>
    rw [idxOf_caret_pointer, length_numbered, hcaret]
    omega

end Within

end Line

/-! ### Reports -/

/-- **Carets point at tokens.**  A report of a source ends with two lines that point at a place
where a token starts.  Above the caret stands the first character of that token, unless it is the
end token, or the character is white space. -/
theorem report_points (source : String) (file : Option String)
    (h : source.utf8ByteSize ≤ maxOffset) (d : Diagnostic) (hd : d ∈ (parse source file).2) :
    ∃ (above : List Char) (p : Pointing source d.position.offset),
      (d.report source).toList = above ++ '\n' :: (p.numbered ++ '\n' :: (p.pointer ++ ['\n'])) ∧
      (∃ t ∈ tokenize source file, t.span.start = d.position.offset) ∧
      ∀ t ∈ tokenize source file, t.kind ≠ .eof → t.span.start = d.position.offset →
        ∀ c ∈ t.literal.toList.head?, ¬ isWhiteSpace c →
          p.numbered[p.pointer.idxOf '^']? = some c := by
  obtain ⟨t, ht, hstart⟩ := exists_token_of_mem_parse hd
  obtain ⟨before, rest, hstands, -⟩ := standsAt_of_mem_tokenize h ht
  rw [hstart] at hstands
  have hwithin := lineAt_within source d.position.offset
  cases hl : lineAt source d.position.offset with
  | none =>
    rw [hl] at hwithin
    exact absurd hstands.le_utf8ByteSize (Nat.not_le_of_lt hwithin)
  | some l =>
    rw [hl] at hwithin
    obtain ⟨b, a, hl'⟩ := hwithin
    obtain ⟨p, hnumbered, hpointer⟩ := hl'.exists_pointing hstands
    obtain ⟨above, habove⟩ := l.exists_excerpt
    refine ⟨(d.heading ++ "-> " ++ d.position.file ++ "\n").toList ++ above, p, ?_,
      ⟨t, ht, hstart⟩, fun u hu hk hustart c hc hvisible => ?_⟩
    · rw [Diagnostic.report, hl, String.toList_append, habove, hnumbered, hpointer,
        List.append_assoc]
    · obtain ⟨before', rest', hstands', hhead⟩ := standsAt_of_mem_tokenize h hu
      rw [hustart] at hstands'
      rw [hnumbered, hpointer]
      exact hl'.getElem?_numbered_caret hstands' (hhead hk ▸ hc) hvisible

/-- Nine bytes behind the beginning of the source, six behind that of the line, and four characters
behind that of the shown text. -/
theorem report_points_rparen :
    let source := "x;\n\té + ) \n"
    let d : Diagnostic := ⟨.noOperand .rparen, ⟨9, "shell"⟩⟩
    d ∈ (parse source none).2 ∧
      d.report source = "Error: NoPrefixParseFn (`)` cannot start an expression)\n-> shell\n" ++
        "  |\n2 | é + )\n  | ----^\n" ∧
      ∃ p : Pointing source 9, p.numbered[p.pointer.idxOf '^']? = some ')' := by
  intro source d
  have hd : d ∈ (parse source none).2 := by decide +kernel
  have ht : ⟨.rparen, ")", ⟨9, 10, "shell"⟩⟩ ∈ tokenize source none := by decide +kernel
  obtain ⟨above, p, -, -, hcaret⟩ := report_points source none (by decide +kernel) d hd
  exact ⟨hd, by decide +kernel, p, hcaret _ ht (by decide) rfl ')' rfl (by decide)⟩

end ExprLang
