import ExprLang.Proofs.Scanning.Offsets

/-!
# One text behind another

A text is cut into blanks and tokens in one way only (`Laid.upcoming_eq`), and how far a token goes
depends on no more than the next character (`Lexeme.Spells.of_head?`).  So where the last token of
one text stays the same with another text behind it (`Parts`), the tokens of both together are those
of the first and, moved by its length, those of the second (`upcoming_append`).  This is so where
the first text ends with a semicolon, and where the second one begins with a blank.
-/

namespace ExprLang

open Text Lexeme

/-! ### Spelling depends on the next character -/

namespace Lexeme

variable {k : Kind} {l tail tail' : List Char}

/-- What a run of characters goes through is not made longer by characters that end it. -/
theorem takeWhile_append_of_head? {p : Char → Bool} {cs : List Char}
    (h : (cs ++ tail).takeWhile p = cs) (ht : ∀ c ∈ tail'.head?, p c → c ∈ tail.head?) :
    (cs ++ tail').takeWhile p = cs :=
  takeWhile_append_tail (all_of_takeWhile_append h) fun c hc hp =>
    not_head?_of_takeWhile_append h c (ht c hc hp) hp

/-- A text is spelt as it is also if another text stands behind it that begins with the same
character, or with a blank. -/
theorem Spells.of_head? (h : Spells k l tail)
    (ht : ∀ c ∈ tail'.head?, isBlank c ∨ c ∈ tail.head?) : Spells k l tail' := by
  obtain ⟨c, cs, rfl, hb, hl⟩ := h
  refine ⟨c, cs, rfl, hb, ?_⟩
  by_cases hc : isLetter c
  · unfold leading at hl ⊢
    rw [if_pos hc] at hl ⊢
    obtain ⟨rfl, hcs⟩ := Prod.mk.inj hl
    have hcs' := takeWhile_append_of_head? (List.cons.inj hcs).2 fun d hd hp =>
      (ht d hd).resolve_left (not_isBlank_of_isLetter hp)
    rw [hcs', (List.cons.inj hcs).2]
  by_cases hd : c.isDigit
  · unfold leading at hl ⊢
    rw [if_neg hc, if_pos hd] at hl ⊢
    obtain ⟨rfl, hcs⟩ := Prod.mk.inj hl
    rw [takeWhile_append_of_head? (List.cons.inj hcs).2 fun d hd hp =>
      (ht d hd).resolve_left (not_isBlank_of_isDigit hp)]
  cases cs with
  | nil =>
    have hmark : c = '=' ∨ c = '!' → tail.head? ≠ some '=' := head?_ne_of_leading hl
    have hmark' : c = '=' ∨ c = '!' → tail'.head? ≠ some '=' := fun hc' he =>
      hmark hc' ((ht '=' he).resolve_left (by decide))
    rw [List.nil_append, leading_mark hc hd hmark] at hl
    rw [List.nil_append, leading_mark hc hd hmark', hl]
  | cons d ds =>
    unfold leading at hl ⊢
    rw [if_neg hc, if_neg hd] at hl ⊢
    rw [List.cons_append] at hl ⊢
    split at hl
    · obtain ⟨rfl, hcs⟩ := Prod.mk.inj hl
      obtain ⟨rfl, rfl⟩ := List.cons.inj (List.cons.inj hcs).2
      rfl
    · obtain ⟨rfl, hcs⟩ := Prod.mk.inj hl
      obtain ⟨rfl, rfl⟩ := List.cons.inj (List.cons.inj hcs).2
      rfl
    · exact absurd (Prod.mk.inj hl).2 (by simp)

theorem spells_semicolon (tail : List Char) : Spells .semicolon [';'] tail :=
  spells_mark rfl fun h => absurd h (by decide)

end Lexeme

/-! ### Tokens further on -/

/-- The token `n` bytes further on. -/
def Token.shift (n : Nat) (t : Token) : Token :=
  { t with span := ⟨t.span.start + n, t.span.stop + n, t.span.file⟩ }

def Diagnostic.shift (n : Nat) (d : Diagnostic) : Diagnostic :=
  { d with position := ⟨d.position.offset + n, d.position.file⟩ }

theorem Span.between_add {start stop n : Nat} (h : start ≤ stop) (hmax : stop + n ≤ maxOffset)
    (file : String) : between (start + n) (stop + n) file =
      ⟨(between start stop file).start + n, (between start stop file).stop + n, file⟩ := by
  unfold between
  rw [Nat.min_eq_left (by omega), Nat.min_eq_left (by omega), Nat.min_eq_left (by omega),
    Nat.min_eq_left (by omega)]

namespace Laid

variable {file : String} {n : Nat} {cs ds gap : List Char} {ts us : List Token}

/-- The same text further on in a source. -/
theorem shift (h : Laid file n cs ts) (m : Nat) (hmax : n + byteWidth cs + m ≤ maxOffset) :
    Laid file (n + m) cs (ts.map (Token.shift m)) := by
  induction h with
  | blanks hb => exact .blanks hb
  | @token n gap l tail k ts hb hl hk _ ih =>
    simp only [byteWidth_append] at hmax
    have hrest := ih (by omega)
    have hspan := Span.between_add (n := m)
      (Nat.le_add_right (n + byteWidth gap) (byteWidth l)) (by omega) file
    have hfirst : n + byteWidth gap + m = n + m + byteWidth gap := Nat.add_right_comm ..
    have hlast : n + byteWidth gap + byteWidth l + m = n + m + byteWidth gap + byteWidth l := by
      omega
    rw [hlast] at hrest
    rw [hfirst, hlast] at hspan
    have ht : Laid file (n + m) _ _ := .token hb hl hk hrest
    rwa [hspan] at ht

theorem blanks_append (hb : ∀ b ∈ gap, isBlank b) (h : Laid file (n + byteWidth gap) cs ts) :
    Laid file n (gap ++ cs) ts := by
  cases h with
  | blanks hb' => exact .blanks (List.forall_mem_append.2 ⟨hb, hb'⟩)
  | @token _ gap' l tail k ts hb' hl hk h =>
    rw [Nat.add_assoc n, ← byteWidth_append] at h ⊢
    rw [← List.append_assoc]
    exact .token (List.forall_mem_append.2 ⟨hb, hb'⟩) hl hk h

theorem ne_nil (h : Laid file n cs ts) (hts : ts ≠ []) : cs ≠ [] := by
  cases h with
  | blanks => exact absurd rfl hts
  | token _ hl =>
    obtain ⟨c, cs, rfl, -⟩ := hl
    simp

/-- Two texts one behind the other, if the last token of the first one stays what it is. -/
theorem append (h : Laid file n cs ts) (h' : Laid file (n + byteWidth cs) ds us)
    (hlast : ∀ t ∈ ts.getLast?, ∀ gap, (∀ b ∈ gap, isBlank b) →
      Spells t.kind t.literal.toList gap → Spells t.kind t.literal.toList (gap ++ ds)) :
    Laid file n (cs ++ ds) (ts ++ us) := by
  induction h with
  | blanks hb => exact blanks_append hb h'
  | @token n gap l tail k ts hb hl hk h ih =>
    rw [List.append_assoc, List.append_assoc, List.cons_append]
    rw [byteWidth_append, byteWidth_append, ← Nat.add_assoc, ← Nat.add_assoc] at h'
    cases ts with
    | nil =>
      cases h with
      | blanks hb' =>
        have hl' : Spells k l (tail ++ ds) := by
          have hspells := hlast ⟨k, String.ofList l, _⟩ rfl tail hb'
          simp only [String.toList_ofList] at hspells
          exact hspells hl
        exact .token hb hl' hk (blanks_append hb' h')
    | cons t ts =>
      have hhead : (tail ++ ds).head? = tail.head? := by
        cases tail with
        | nil => exact absurd rfl (h.ne_nil (List.cons_ne_nil t ts))
        | cons c cs => rfl
      refine .token hb (hl.of_head? fun c hc => .inr (hhead ▸ hc)) hk (ih h' fun u hu => hlast u ?_)
      rwa [List.getLast?_cons_cons]

end Laid

/-! ### A text is cut in one way only -/

theorem Laid.upcoming_eq {file : String} {n : Nat} {cs : List Char} {ts : List Token}
    (h : Laid file n cs ts) : (⟨file, n, cs⟩ : Scanner).upcoming = ts := by
  induction h with
  | @blanks n gap hb =>
    have hskip : (⟨file, n, gap ++ []⟩ : Scanner).skipBlanks = ⟨file, n + byteWidth gap, []⟩ :=
      Scanner.skipBlanks_append hb nofun
    rw [List.append_nil] at hskip
    have hk : (⟨file, n, gap⟩ : Scanner).next.1.kind = .eof := by
      unfold Scanner.next
      rw [hskip]
      rfl
    rw [Scanner.upcoming_eq, if_pos hk]
  | @token n gap l tail k ts hb hl hk _ ih =>
    rw [Scanner.upcoming_eq, Scanner.next_append hb hl, if_neg hk, ih]

/-! ### Two sources -/

/-- The last token of `s₁` ends where it does also if `s₂` stands behind `s₁`. -/
def Parts (s₁ s₂ : String) (file : Option String) : Prop :=
  ∀ t ∈ (Scanner.ofSource s₁ file).upcoming.getLast?, ∀ gap, (∀ b ∈ gap, isBlank b) →
    Spells t.kind t.literal.toList gap → Spells t.kind t.literal.toList (gap ++ s₂.toList)

theorem parts_of_semicolon {s₁ : String} {file : Option String}
    (hlast : (Scanner.ofSource s₁ file).upcoming.getLast?.map Token.kind = some .semicolon)
    (s₂ : String) : Parts s₁ s₂ file := by
  intro t ht gap _ hspells
  rw [ht] at hlast
  obtain ⟨c, cs, hl, -, hlead⟩ := hspells
  have hk : t.kind = .semicolon := Option.some.inj hlast
  rw [hk] at hlead ⊢
  rw [eq_toList_of_leading hlead rfl]
  exact spells_semicolon _

theorem parts_of_blank {s₂ : String} (hs : ∀ c ∈ s₂.toList.head?, isBlank c) (s₁ : String)
    (file : Option String) : Parts s₁ s₂ file := by
  intro t _ gap hb hspells
  refine hspells.of_head? fun c hc => .inl ?_
  cases gap with
  | nil => exact hs c hc
  | cons b gap =>
    cases hc
    exact hb _ List.mem_cons_self

section

variable {s₁ s₂ : String} {file : Option String}
  (hsize : (s₁ ++ s₂).utf8ByteSize ≤ maxOffset) (hparts : Parts s₁ s₂ file)

include hsize hparts

theorem upcoming_append : (Scanner.ofSource (s₁ ++ s₂) file).upcoming =
    (Scanner.ofSource s₁ file).upcoming ++
      (Scanner.ofSource s₂ file).upcoming.map (Token.shift s₁.utf8ByteSize) := by
  rw [String.utf8ByteSize_append] at hsize
  have h₁ : Laid (file.getD defaultFile) 0 s₁.toList (Scanner.ofSource s₁ file).upcoming :=
    (Scanner.ofSource s₁ file).laid
  have h₂ : Laid (file.getD defaultFile) 0 s₂.toList (Scanner.ofSource s₂ file).upcoming :=
    (Scanner.ofSource s₂ file).laid
  have hshift := h₂.shift s₁.utf8ByteSize (by rw [byteWidth_toList]; omega)
  rw [← byteWidth_toList s₁] at hshift
  have happend := h₁.append hshift hparts
  rw [← String.toList_append, byteWidth_toList] at happend
  exact happend.upcoming_eq

theorem tokenStream_append_of_lt {k : Nat}
    (hk : k < (Scanner.ofSource s₁ file).upcoming.length) :
    tokenStream (s₁ ++ s₂) file k = tokenStream s₁ file k := by
  rw [tokenStream_eq, tokenStream_eq, upcoming_append hsize hparts, List.getElem?_append_left hk,
    List.getElem?_eq_getElem hk, Option.getD_some, Option.getD_some]

theorem tokenStream_append_add (k : Nat) :
    tokenStream (s₁ ++ s₂) file ((Scanner.ofSource s₁ file).upcoming.length + k) =
      (tokenStream s₂ file k).shift s₁.utf8ByteSize := by
  have hsize₂ : s₂.utf8ByteSize ≤ maxOffset := by
    rw [String.utf8ByteSize_append] at hsize
    omega
  have hend : (Scanner.ofSource (s₁ ++ s₂) file).endToken =
      (Scanner.ofSource s₂ file).endToken.shift s₁.utf8ByteSize := by
    rw [endToken_ofSource file hsize, endToken_ofSource file hsize₂, endToken, endToken,
      Token.shift, String.utf8ByteSize_append, Nat.add_comm]
  rw [tokenStream_eq, tokenStream_eq, upcoming_append hsize hparts,
    List.getElem?_append_right (Nat.le_add_right _ _), Nat.add_sub_cancel_left,
    List.getElem?_map, hend, Option.getD_map]

end

end ExprLang
