import ExprLang.Proofs.Parsing.Stream

/-!
# How tokens are spelt

`Lexeme.Spells k l tail` says that a scanner in front of `l ++ tail` reads `l` as a token of kind
`k`.  Words and numbers need an end of their own for that (`Lexeme.Ending`); a mark needs none, apart
from `=` and `!`, behind which no other `=` may stand.

In the other direction, all kinds but names and numbers have one spelling only (`Kind.spelling?`),
and what a scanner reads is spelt so.
-/

namespace ExprLang

def Kind.spelling? : Kind → Option String
  | illegal | eof | ident | int => none
  | fnWord => some "fn" | letWord => some "let" | trueWord => some "true"
  | falseWord => some "false" | ifWord => some "if" | elseWord => some "else"
  | returnWord => some "return"
  | k => some k.name

/-- No word is a number. -/
theorem Kind.ofWord_ne_int (word : String) : Kind.ofWord word ≠ .int := by
  unfold Kind.ofWord Kind.reserved
  simp only [List.lookup_cons, List.lookup_nil]
  repeat' split
  all_goals simp

namespace Lexeme

/-! ### From texts to tokens -/

/-- In front of `tail`, the text `l` is read as one token of kind `k`. -/
def Spells (k : Kind) (l tail : List Char) : Prop :=
  ∃ c cs, l = c :: cs ∧ ¬ isBlank c ∧ leading c (cs ++ tail) = (k, l)

/-- A word or a number does not go on in this text. -/
def Ending (tail : List Char) : Prop := ∀ c ∈ tail.head?, ¬ isLetter c ∧ ¬ c.isDigit

theorem Ending.not_isLetter {tail : List Char} (h : Ending tail) :
    ∀ c ∈ tail.head?, ¬ isLetter c := fun c hc => (h c hc).1

theorem Ending.not_isDigit {tail : List Char} (h : Ending tail) :
    ∀ c ∈ tail.head?, ¬ c.isDigit := fun c hc => (h c hc).2

theorem ending_nil : Ending [] := nofun

theorem ending_cons {c : Char} {cs : List Char} (hl : ¬ isLetter c) (hd : ¬ c.isDigit) :
    Ending (c :: cs) := by
  intro d h
  cases h
  exact ⟨hl, hd⟩

theorem ending_blank (cs : List Char) : Ending (' ' :: cs) := ending_cons (by decide) (by decide)

theorem ending_semicolon (cs : List Char) : Ending (';' :: cs) :=
  ending_cons (by decide) (by decide)

theorem ending_rparen (cs : List Char) : Ending (')' :: cs) := ending_cons (by decide) (by decide)

theorem eq_of_isBlank {c : Char} (h : isBlank c) : c = ' ' ∨ c = '\t' ∨ c = '\n' ∨ c = '\r' := by
  simpa [isBlank, or_assoc] using h

theorem blanks_nil : ∀ b ∈ ([] : List Char), isBlank b := by simp

theorem blanks_one : ∀ b ∈ [' '], isBlank b := by simp [isBlank]

theorem not_isBlank_of_isLetter {c : Char} (h : isLetter c) : ¬ isBlank c := by
  intro hb
  rcases eq_of_isBlank hb with rfl | rfl | rfl | rfl <;> exact absurd h (by decide)

theorem not_isBlank_of_isDigit {c : Char} (h : c.isDigit) : ¬ isBlank c := by
  intro hb
  rcases eq_of_isBlank hb with rfl | rfl | rfl | rfl <;> exact absurd h (by decide)

theorem not_isLetter_of_isDigit {c : Char} (h : c.isDigit) : ¬ isLetter c := by
  have hd := (Char.isDigit_iff_toNat.1 h).2
  intro hl
  rcases Bool.or_eq_true_iff.1 hl with hl | hl
  · have h9 : '9'.toNat < 'A'.toNat ∧ '9'.toNat < 'a'.toNat := by decide
    have hA : 'A'.toNat ≤ c.toNat ∨ 'a'.toNat ≤ c.toNat := by
      rcases Bool.or_eq_true_iff.1 hl with hl | hl
      · exact .inl (UInt32.le_iff_toNat_le.1 (of_decide_eq_true hl).1)
      · exact .inr (UInt32.le_iff_toNat_le.1 (of_decide_eq_true (Bool.and_eq_true_iff.1 hl).1))
    omega
  · rw [eq_of_beq hl] at h
    exact absurd h (by decide)

theorem takeWhile_append_tail {p : Char → Bool} {l tail : List Char} (hl : ∀ c ∈ l, p c)
    (ht : ∀ c ∈ tail.head?, ¬ p c) : (l ++ tail).takeWhile p = l := by
  rw [List.takeWhile_append_of_pos hl]
  cases tail with
  | nil => simp
  | cons c cs => simp [ht c rfl]

theorem all_of_takeWhile_append {p : Char → Bool} {l tail : List Char}
    (h : (l ++ tail).takeWhile p = l) : ∀ c ∈ l, p c := by
  intro c hc
  rw [← h] at hc
  exact List.all_eq_true.1 List.all_takeWhile c hc

theorem not_head?_of_takeWhile_append {p : Char → Bool} {l tail : List Char}
    (h : (l ++ tail).takeWhile p = l) : ∀ c ∈ tail.head?, ¬ p c := by
  rw [List.takeWhile_append_of_pos (all_of_takeWhile_append h)] at h
  have htail : tail.takeWhile p = [] := List.append_right_eq_self.1 h
  intro c hc hp
  cases tail with
  | nil => exact absurd hc nofun
  | cons d ds =>
    cases hc
    rw [List.takeWhile_cons_of_pos hp] at htail
    exact absurd htail nofun

theorem spells_word {l tail : List Char} (hl : l ≠ []) (h : ∀ c ∈ l, isLetter c)
    (ht : ∀ c ∈ tail.head?, ¬ isLetter c) : Spells (Kind.ofWord (String.ofList l)) l tail := by
  cases l with
  | nil => exact absurd rfl hl
  | cons c cs =>
    have hc := h c (List.mem_cons_self ..)
    have hcs := takeWhile_append_tail (fun d hd => h d (List.mem_cons_of_mem _ hd)) ht
    refine ⟨c, cs, rfl, not_isBlank_of_isLetter hc, ?_⟩
    unfold leading
    rw [if_pos hc, hcs]

theorem spells_number {l tail : List Char} (hl : l ≠ []) (h : ∀ c ∈ l, c.isDigit)
    (ht : ∀ c ∈ tail.head?, ¬ c.isDigit) : Spells .int l tail := by
  cases l with
  | nil => exact absurd rfl hl
  | cons c cs =>
    have hc := h c (List.mem_cons_self ..)
    have hcs := takeWhile_append_tail (fun d hd => h d (List.mem_cons_of_mem _ hd)) ht
    refine ⟨c, cs, rfl, not_isBlank_of_isDigit hc, ?_⟩
    unfold leading
    rw [if_neg (not_isLetter_of_isDigit hc), if_pos hc, hcs]

/-- A mark stands for itself, unless it is the first half of `==` or `!=`. -/
theorem leading_mark {c : Char} {cs : List Char} (hl : ¬ isLetter c) (hd : ¬ c.isDigit)
    (h : c = '=' ∨ c = '!' → cs.head? ≠ some '=') :
    leading c cs = ((Kind.ofMark? c).getD .illegal, [c]) := by
  unfold leading
  rw [if_neg hl, if_neg hd]
  split
  · exact absurd rfl (h (.inl rfl))
  · exact absurd rfl (h (.inr rfl))
  · rfl

/-- Where `=` or `!` stands for itself, no `=` follows. -/
theorem head?_ne_of_leading {c : Char} {k : Kind} {tail : List Char}
    (h : leading c tail = (k, [c])) (hc : c = '=' ∨ c = '!') : tail.head? ≠ some '=' := by
  intro he
  obtain ⟨ds, rfl⟩ : ∃ ds, tail = '=' :: ds := by
    cases tail with
    | nil => exact absurd he nofun
    | cons d ds => exact ⟨ds, by rw [Option.some.inj he]⟩
  rcases hc with rfl | rfl
  · exact absurd (Prod.mk.inj h).2 (by simp)
  · exact absurd (Prod.mk.inj h).2 (by simp)

theorem spells_mark {c : Char} {k : Kind} {tail : List Char} (hk : Kind.ofMark? c = some k)
    (h : c = '=' ∨ c = '!' → tail.head? ≠ some '=') : Spells k [c] tail := by
  have hc : ¬ isBlank c ∧ ¬ isLetter c ∧ ¬ c.isDigit := by
    revert hk
    unfold Kind.ofMark?
    split <;> intro hk <;> first | decide | exact absurd hk nofun
  refine ⟨c, [], rfl, hc.1, ?_⟩
  rw [List.nil_append, leading_mark hc.2.1 hc.2.2 h, hk]
  rfl

theorem spells_equal (tail : List Char) : Spells .equal ['=', '='] tail :=
  ⟨'=', ['='], rfl, by decide, rfl⟩

theorem spells_notEqual (tail : List Char) : Spells .notEqual ['!', '='] tail :=
  ⟨'!', ['='], rfl, by decide, rfl⟩

/-- Before a blank, each kind is read from its spelling. -/
theorem spells_of_spelling? {k : Kind} {w : String} (h : k.spelling? = some w) (cs : List Char) :
    Spells k w.toList (' ' :: cs) := by
  have ht := ending_blank cs
  have word : ∀ v : String, v.toList ≠ [] → (∀ c ∈ v.toList, isLetter c) →
      Spells (Kind.ofWord v) v.toList (' ' :: cs) := by
    intro v hv hl
    have hs := spells_word hv hl ht.not_isLetter
    rwa [String.ofList_toList] at hs
  have mark : ∀ c l, Kind.ofMark? c = some l → Spells l [c] (' ' :: cs) := by
    intro c l hl
    exact spells_mark hl fun _ => by simp
  cases k <;> cases h
  case equal => exact spells_equal _
  case notEqual => exact spells_notEqual _
  case assign => exact mark '=' _ rfl
  case plus => exact mark '+' _ rfl
  case minus => exact mark '-' _ rfl
  case bang => exact mark '!' _ rfl
  case star => exact mark '*' _ rfl
  case slash => exact mark '/' _ rfl
  case less => exact mark '<' _ rfl
  case greater => exact mark '>' _ rfl
  case comma => exact mark ',' _ rfl
  case semicolon => exact mark ';' _ rfl
  case lparen => exact mark '(' _ rfl
  case rparen => exact mark ')' _ rfl
  case lbrace => exact mark '\x7b' _ rfl
  case rbrace => exact mark '\x7d' _ rfl
  all_goals exact word _ (by decide) (List.all_eq_true.1 (by decide))

/-! ### From tokens to texts -/

theorem eq_of_spelling?_ofWord {word w : String} (h : (Kind.ofWord word).spelling? = some w) :
    word = w := by
  unfold Kind.ofWord Kind.reserved at h
  simp only [List.lookup_cons, List.lookup_nil] at h
  repeat' split at h
  all_goals cases h
  all_goals exact eq_of_beq ‹_›

/-- A token of a kind with one spelling is spelt so. -/
theorem eq_toList_of_leading {c : Char} {cs l : List Char} {k : Kind} {w : String}
    (h : leading c cs = (k, l)) (hw : k.spelling? = some w) : l = w.toList := by
  unfold leading at h
  by_cases hl : isLetter c
  · rw [if_pos hl] at h
    cases h
    rw [← eq_of_spelling?_ofWord hw, String.toList_ofList]
  · by_cases hd : c.isDigit
    · rw [if_neg hl, if_pos hd] at h
      cases h
      exact absurd hw nofun
    · rw [if_neg hl, if_neg hd] at h
      split at h
      · cases h
        cases hw
        rfl
      · cases h
        cases hw
        rfl
      · cases h
        revert hw
        unfold Kind.ofMark?
        split <;> intro hw <;> cases hw <;> rfl

/-- A name is a word that is not reserved. -/
theorem word_of_leading {c : Char} {cs l : List Char} (h : leading c cs = (.ident, l)) :
    l ≠ [] ∧ (∀ d ∈ l, isLetter d) ∧ Kind.ofWord (String.ofList l) = .ident := by
  unfold leading at h
  by_cases hl : isLetter c
  · rw [if_pos hl] at h
    obtain ⟨hk, rfl⟩ := Prod.mk.inj h
    refine ⟨by simp, ?_, hk⟩
    intro d hd
    rcases List.mem_cons.1 hd with rfl | hd
    · exact hl
    · exact List.all_eq_true.1 List.all_takeWhile d hd
  · by_cases hd : c.isDigit
    · rw [if_neg hl, if_pos hd] at h
      exact absurd h nofun
    · rw [if_neg hl, if_neg hd] at h
      split at h
      · exact absurd h nofun
      · exact absurd h nofun
      · obtain ⟨hk, -⟩ := Prod.mk.inj h
        revert hk
        unfold Kind.ofMark?
        split <;> exact nofun

/-- A number is a run of digits. -/
theorem digits_of_leading {c : Char} {cs l : List Char} (h : leading c cs = (.int, l)) :
    l ≠ [] ∧ ∀ d ∈ l, d.isDigit := by
  unfold leading at h
  by_cases hl : isLetter c
  · rw [if_pos hl] at h
    exact absurd (Prod.mk.inj h).1 (Kind.ofWord_ne_int _)
  · by_cases hd : c.isDigit
    · rw [if_neg hl, if_pos hd] at h
      obtain ⟨-, rfl⟩ := Prod.mk.inj h
      refine ⟨by simp, fun d hd' => ?_⟩
      rcases List.mem_cons.1 hd' with rfl | hd'
      · exact hd
      · exact List.all_eq_true.1 List.all_takeWhile d hd'
    · rw [if_neg hl, if_neg hd] at h
      split at h
      · exact absurd h nofun
      · exact absurd h nofun
      · obtain ⟨hk, -⟩ := Prod.mk.inj h
        revert hk
        unfold Kind.ofMark?
        split <;> exact nofun

end Lexeme

/-- The token is what a scanner reads somewhere. -/
def Token.IsLexeme (t : Token) : Prop := ∃ c cs, Lexeme.leading c cs = (t.kind, t.literal.toList)

namespace Scanner

open Lexeme

variable {s : Scanner} {k : Kind} {blanks l tail : List Char}

theorem next_of_spells (h : Spells k l tail) (hb : ∀ b ∈ blanks, isBlank b)
    (hs : s.rest = blanks ++ (l ++ tail)) :
    s.next.1.kind = k ∧ s.next.1.literal = String.ofList l ∧ s.next.2.rest = tail := by
  obtain ⟨c, cs, rfl, hc, hl⟩ := h
  have hblanks : s.rest.takeWhile isBlank = blanks := by
    rw [hs]
    refine takeWhile_append_tail hb fun d hd => ?_
    cases hd
    exact hc
  have hrest : s.skipBlanks.rest = c :: (cs ++ tail) := by
    unfold skipBlanks skip
    rw [hblanks, hs, List.drop_left]
    rfl
  unfold next read
  rw [hrest]
  simp only [hl, token]
  refine ⟨trivial, trivial, ?_⟩
  unfold skip
  rw [hrest]
  change ((c :: cs) ++ tail).drop (c :: cs).length = tail
  exact List.drop_left

/-- A text that spells a token is read as that token, and then the text behind it. -/
theorem upcoming_of_spells (h : Spells k l tail) (hb : ∀ b ∈ blanks, isBlank b)
    (hs : s.rest = blanks ++ (l ++ tail)) :
    ∃ (t : Token) (s' : Scanner), s.upcoming = t :: s'.upcoming ∧ s'.rest = tail ∧ t.kind = k ∧
      t.literal = String.ofList l := by
  obtain ⟨hk, hl, hr⟩ := next_of_spells h hb hs
  have hne : s.next.1.kind ≠ .eof := by
    obtain ⟨c, cs, -, -, he⟩ := h
    have := kind_leading_ne_eof c (cs ++ tail)
    rw [he] at this
    rwa [hk]
  refine ⟨s.next.1, s.next.2, ?_, hr, hk, hl⟩
  rw [upcoming_eq, if_neg hne]

theorem upcoming_of_rest_nil (hs : s.rest = []) : s.upcoming = [] := by
  have hk : s.next.1.kind = .eof := by
    unfold next read
    rw [skipBlanks_of_nil hs, hs]
    rfl
  rw [upcoming_eq, if_pos hk]

theorem isLexeme_of_mem_upcoming {t : Token} (h : t ∈ s.upcoming) : t.IsLexeme := by
  induction hn : s.rest.length using Nat.strongRecOn generalizing s with
  | ind n ih =>
    subst hn
    rw [upcoming_eq] at h
    split at h
    · exact absurd h List.not_mem_nil
    · rename_i hk
      rcases List.mem_cons.1 h with rfl | h
      · unfold next read at hk ⊢
        split at hk
        · exact absurd rfl hk
        · rename_i c cs hr
          refine ⟨c, cs, ?_⟩
          simp only [token, String.toList_ofList]
      · exact ih _ (length_rest_next_lt hk) h rfl

end Scanner

theorem isLexeme_of_mem_tokenize {source : String} {file : Option String} {t : Token}
    (h : t ∈ tokenize source file) (hk : t.kind ≠ .eof) : t.IsLexeme := by
  have hm : t ∈ (Scanner.ofSource source file).upcoming := by
    rw [← Scanner.filter_tokens]
    exact List.mem_filter.2 ⟨h, decide_eq_true hk⟩
  exact Scanner.isLexeme_of_mem_upcoming hm

end ExprLang
