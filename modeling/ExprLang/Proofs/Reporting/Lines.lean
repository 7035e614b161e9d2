import ExprLang.Diagnostic.Report
import ExprLang.Proofs.Scanning.Layout
import Mathlib.Data.List.Basic

/-!
# Lines and their newlines

Which line an offset belongs to can be told from the newlines among the bytes of a source alone: it
starts behind the last one before the offset (`lineStart`) and stops behind the next one
(`lineStop`).  `lineAt` goes through the source line by line instead, and comes to the same
(`lineAt_spec`).  In between stands `Line.Within`, which cuts the source into characters before the
line, in it and behind it.
-/

namespace ExprLang

open Text

/-! ### Newlines among bytes -/

/-- At which bytes of a source the newlines stand. -/
def newlines (source : String) : List Nat := source.toByteArray.data.toList.idxsOf 0x0a

/-- At which of the first bytes of a source newlines stand. -/
def newlinesBefore (source : String) (offset : Nat) : List Nat :=
  (newlines source).filter (· < offset)

/-- Where the line of an offset starts: behind the last newline before it, or with the source if
there is none. -/
def lineStart (source : String) (offset : Nat) : Nat :=
  match (newlinesBefore source offset).getLast? with
  | none => 0
  | some i => i + 1

/-- Where the line stops that starts here: behind the next newline, or with the source if there is
none. -/
def lineStop (source : String) (start : Nat) : Nat :=
  match (newlines source).find? (start ≤ ·) with
  | none => source.utf8ByteSize
  | some i => i + 1

namespace Text

def octets (cs : List Char) : List UInt8 := cs.flatMap String.utf8EncodeChar

theorem octets_append (cs ds : List Char) : octets (cs ++ ds) = octets cs ++ octets ds :=
  List.flatMap_append

theorem octets_toList (source : String) :
    source.toByteArray.data.toList = octets source.toList := by
  rw [← source.ofList_toList, String.toByteArray_ofList, String.toList_ofList, List.utf8Encode,
    List.toList_data_toByteArray]
  rfl

theorem length_octets (cs : List Char) : (octets cs).length = byteWidth cs := by
  induction cs with
  | nil => rfl
  | cons c cs ih =>
    rw [octets, List.flatMap_cons, List.length_append, String.length_utf8EncodeChar, ← octets, ih,
      byteWidth_cons]

/-- In no other character the byte of a newline occurs. -/
theorem newline_not_mem_utf8EncodeChar {c : Char} (h : c ≠ '\n') :
    (0x0a : UInt8) ∉ String.utf8EncodeChar c := by
  have hv : c.val.toNat ≠ 10 := fun hv => h (Char.ext (UInt32.toNat_inj.1 hv))
  have hbyte : ∀ n, (0x0a : UInt8) = UInt8.ofNat n → n % 256 = 10 := by
    intro n hn
    rw [← UInt8.toNat_ofNat', ← hn]
    rfl
  unfold String.utf8EncodeChar
  generalize c.val.toNat = v at hv
  -- a character of several bytes has none below 128
  simp only
  split_ifs
  all_goals
    simp only [List.mem_cons, List.not_mem_nil, or_false]
    grind

theorem count_octets (cs : List Char) : (octets cs).count 0x0a = cs.count '\n' := by
  induction cs with
  | nil => rfl
  | cons c cs ih =>
    rw [octets, List.flatMap_cons, List.count_append, ← octets, ih]
    by_cases hc : c = '\n'
    · rw [hc, List.count_cons_self, Nat.add_comm]
      rfl
    · rw [List.count_eq_zero.2 (newline_not_mem_utf8EncodeChar hc), List.count_cons_of_ne hc,
        Nat.zero_add]

/-- A text without a newline has none among its bytes, wherever it stands. -/
theorem idxsOf_octets_eq_nil {cs : List Char} (h : '\n' ∉ cs) (n : Nat) :
    (octets cs).idxsOf 0x0a n = [] := by
  rw [← List.length_eq_zero_iff, List.length_idxsOf, count_octets]
  exact List.count_eq_zero.2 h

end Text

/-! ### Lines among characters -/

namespace Line

/-- The line stands in `cs` between `before` and `after`, and the offset in the line; the first line
has the given number. -/
structure Within (number : Nat) (cs : List Char) (offset : Nat) (before after : List Char)
    (l : Line) : Prop where
  text : cs = before ++ (l.text.toList ++ after)
  /-- a line begins behind a newline -/
  begins : ∀ c ∈ before.getLast?, c = '\n'
  /-- and with a newline it ends, which is missing only at the end of the text -/
  ends : ∃ body ending, l.text.toList = body ++ ending ∧ '\n' ∉ body ∧
    l.column ≤ byteWidth body ∧ (ending = ['\n'] ∨ ending = [] ∧ after = [])
  number : l.number = number + before.count '\n'
  column : offset = byteWidth before + l.column

theorem newline_not_mem_takeWhile (cs : List Char) : '\n' ∉ cs.takeWhile (· != '\n') := by
  intro h
  have hne := List.all_eq_true.1 List.all_takeWhile _ h
  exact absurd hne (by decide)

theorem eq_takeWhile_of_dropWhile {cs : List Char} (h : cs.dropWhile (· != '\n') = []) :
    cs = cs.takeWhile (· != '\n') := by
  have hcs := List.takeWhile_append_dropWhile (p := (· != '\n')) (l := cs)
  rw [h, List.append_nil] at hcs
  exact hcs.symm

theorem eq_append_of_dropWhile {cs rest : List Char} {c : Char}
    (h : cs.dropWhile (· != '\n') = c :: rest) :
    c = '\n' ∧ cs = (cs.takeWhile (· != '\n') ++ [c]) ++ rest := by
  have hhead := List.head?_dropWhile_not (· != '\n') cs
  have hcs := List.takeWhile_append_dropWhile (p := (· != '\n')) (l := cs)
  rw [h] at hhead hcs
  refine ⟨by simpa using hhead, ?_⟩
  rw [List.append_assoc]
  exact hcs.symm

/-- What `locate` finds is within the text, and it finds nothing only behind the text.  The
induction is on the lines. -/
theorem locate_within (number : Nat) (cs : List Char) (offset : Nat) :
    match locate number cs offset with
    | none => byteWidth cs < offset
    | some l => ∃ before after, Within number cs offset before after l := by
  fun_induction locate number cs offset with
  | case1 number cs offset body hlast hle =>
    have hcs : cs = body := eq_takeWhile_of_dropWhile hlast
    exact ⟨[], [], by simpa using hcs, nofun,
      ⟨body, [], by simp, newline_not_mem_takeWhile cs, hle, .inr ⟨rfl, rfl⟩⟩, rfl,
      (Nat.zero_add _).symm⟩
  | case2 number cs offset body hlast hgt =>
    have hcs : cs = body := eq_takeWhile_of_dropWhile hlast
    rw [hcs]
    exact Nat.lt_of_not_le hgt
  | case3 number cs offset body newline rest hdrop line hlt =>
    obtain ⟨rfl, hcs⟩ := eq_append_of_dropWhile hdrop
    have hwidth : byteWidth line = byteWidth body + 1 := byteWidth_append body ['\n']
    have hle : offset ≤ byteWidth body := by omega
    refine ⟨[], rest, ?_, nofun, ?_, rfl, (Nat.zero_add _).symm⟩
    · rw [String.toList_ofList]
      exact hcs
    · exact ⟨body, ['\n'], String.toList_ofList, newline_not_mem_takeWhile cs, hle, .inl rfl⟩
  | case4 number cs offset body newline rest hdrop line hge ih =>
    obtain ⟨rfl, hcs⟩ := eq_append_of_dropWhile hdrop
    have hcs' : cs = line ++ rest := hcs
    have hwidth : byteWidth cs = byteWidth line + byteWidth rest := by
      rw [hcs', byteWidth_append]
    generalize locate (number + 1) rest (offset - byteWidth line) = r at ih
    cases r with
    | none =>
      simp only at ih ⊢
      omega
    | some l =>
      obtain ⟨before, after, htext, hbegins, hends, hnumber, hcolumn⟩ := ih
      have hcount : line.count '\n' = 1 := by
        rw [List.count_append, List.count_eq_zero.2 (newline_not_mem_takeWhile cs)]
        rfl
      refine ⟨line ++ before, after, ?_, fun c hc => ?_, hends, ?_, ?_⟩
      · rw [List.append_assoc, ← htext]
        exact hcs
      · rw [List.getLast?_append] at hc
        cases hb : before.getLast? with
        | none =>
          rw [hb, Option.none_or, List.getLast?_concat] at hc
          exact (Option.some.inj hc).symm
        | some d =>
          rw [hb] at hc
          exact hbegins c (hb ▸ hc)
      · rw [hnumber, List.count_append, hcount, Nat.add_assoc]
      · rw [byteWidth_append, Nat.add_assoc, ← hcolumn]
        omega

/-! ### Where a line stands among the bytes -/

namespace Within

variable {source : String} {number offset : Nat} {before after : List Char} {l : Line}
  (h : Within number source.toList offset before after l)

include h

/-- The newlines of the source are those before the line, the one that ends it, and those behind
it. -/
theorem newlines_eq : ∃ body ending, l.text.toList = body ++ ending ∧
    l.column ≤ byteWidth body ∧ (ending = ['\n'] ∨ ending = [] ∧ after = []) ∧
    newlines source = (octets before).idxsOf 0x0a ++
      ((octets ending).idxsOf 0x0a (byteWidth before + byteWidth body) ++
        (octets after).idxsOf 0x0a (byteWidth before + byteWidth l.text.toList)) := by
  obtain ⟨body, ending, htext, hbody, hcolumn, hending⟩ := h.ends
  refine ⟨body, ending, htext, hcolumn, hending, ?_⟩
  rw [newlines, octets_toList, h.text, htext]
  simp only [octets_append, List.idxsOf_append, length_octets, idxsOf_octets_eq_nil hbody,
    byteWidth_append, List.nil_append, List.append_assoc, Nat.zero_add, Nat.add_assoc]

/-- The newlines before the offset are those before the line. -/
theorem newlinesBefore_eq : newlinesBefore source offset = (octets before).idxsOf 0x0a := by
  obtain ⟨body, ending, htext, hcolumn, -, hnewlines⟩ := h.newlines_eq
  have hbefore : ∀ i ∈ (octets before).idxsOf 0x0a, i < offset := by
    intro i hi
    have hlt := List.lt_add_of_mem_idxsOf i hi
    rw [length_octets, Nat.add_zero] at hlt
    have hoffset := h.column
    omega
  have hend : ∀ i ∈ (octets ending).idxsOf 0x0a (byteWidth before + byteWidth body),
      ¬ i < offset := by
    intro i hi
    have hle := List.ge_of_mem_idxsOf i hi
    have hoffset := h.column
    omega
  have hafter : ∀ i ∈ (octets after).idxsOf 0x0a (byteWidth before + byteWidth l.text.toList),
      ¬ i < offset := by
    intro i hi
    have hle := List.ge_of_mem_idxsOf i hi
    have hoffset := h.column
    rw [htext, byteWidth_append] at hle
    omega
  rw [newlinesBefore, hnewlines, List.filter_append, List.filter_append,
    List.filter_eq_self.2 (by simpa using hbefore), List.filter_eq_nil_iff.2 (by simpa using hend),
    List.filter_eq_nil_iff.2 (by simpa using hafter), List.append_nil, List.append_nil]

theorem lineStart_eq : lineStart source offset = byteWidth before := by
  rw [lineStart, h.newlinesBefore_eq]
  rcases List.eq_nil_or_concat' before with rfl | ⟨rest, c, rfl⟩
  · rfl
  · have hc : c = '\n' := h.begins c List.getLast?_concat
    have hidxs : (octets (rest ++ [c])).idxsOf 0x0a =
        (octets rest).idxsOf 0x0a ++ [byteWidth rest] := by
      rw [hc, octets_append, List.idxsOf_append, length_octets, Nat.zero_add]
      rfl
    rw [hidxs, List.getLast?_concat, byteWidth_append, hc]
    rfl

theorem lineStop_eq :
    lineStop source (byteWidth before) = byteWidth before + byteWidth l.text.toList := by
  obtain ⟨body, ending, htext, -, hending, hnewlines⟩ := h.newlines_eq
  have hbefore : ((octets before).idxsOf 0x0a).find? (byteWidth before ≤ ·) = none := by
    rw [List.find?_eq_none]
    intro i hi
    have hlt := List.lt_add_of_mem_idxsOf i hi
    rw [length_octets, Nat.add_zero] at hlt
    simpa using hlt
  rw [lineStop, hnewlines, List.find?_append, hbefore, Option.none_or]
  rcases hending with rfl | ⟨rfl, rfl⟩
  · have hidxs : (octets ['\n']).idxsOf 0x0a (byteWidth before + byteWidth body) =
        [byteWidth before + byteWidth body] := rfl
    rw [hidxs, List.find?_append, List.find?_cons_of_pos (by simp), htext, byteWidth_append]
    rfl
  · have hsize : source.utf8ByteSize = byteWidth before + byteWidth l.text.toList := by
      rw [← byteWidth_toList, h.text, byteWidth_append, byteWidth_append]
      rfl
    exact hsize

theorem extract_eq : source.toByteArray.extract (byteWidth before)
    (byteWidth before + byteWidth l.text.toList) = l.text.toByteArray := by
  have hsource : source = String.ofList before ++ (l.text ++ String.ofList after) := by
    rw [← source.ofList_toList, h.text, String.ofList_append, String.ofList_append,
      String.ofList_toList]
  have hextract := extract_append_append (String.ofList before) l.text (String.ofList after)
  rw [← hsource, ← byteWidth_eq_utf8ByteSize, ← byteWidth_toList] at hextract
  exact hextract

theorem le_utf8ByteSize : offset ≤ source.utf8ByteSize := by
  obtain ⟨body, ending, htext, -, hcolumn, -⟩ := h.ends
  have hoffset := h.column
  rw [← byteWidth_toList, h.text, byteWidth_append, byteWidth_append, htext, byteWidth_append]
  omega

end Within

end Line

/-! ### The line of an offset -/

theorem lineAt_within (source : String) (offset : Nat) :
    match lineAt source offset with
    | none => source.utf8ByteSize < offset
    | some l => ∃ before after, Line.Within 1 source.toList offset before after l := by
  rw [← byteWidth_toList]
  exact Line.locate_within 1 source.toList offset

/-- **The line of an offset.**  There is one unless the offset is behind the end of the source.  It
has the number of the newlines before the offset, and one more; its text are the bytes from the last
of these newlines to the next one, which is a part of it; and the offset is counted from where it
starts. -/
theorem lineAt_spec (source : String) (offset : Nat) :
    match lineAt source offset with
    | none => source.utf8ByteSize < offset
    | some l => offset ≤ source.utf8ByteSize ∧
        l.number = 1 + (newlinesBefore source offset).length ∧
        l.text.toByteArray = source.toByteArray.extract (lineStart source offset)
          (lineStop source (lineStart source offset)) ∧
        l.column = offset - lineStart source offset := by
  have hwithin := lineAt_within source offset
  cases hl : lineAt source offset with
  | none =>
    rw [hl] at hwithin
    exact hwithin
  | some l =>
    rw [hl] at hwithin
    obtain ⟨before, after, h⟩ := hwithin
    refine ⟨h.le_utf8ByteSize, ?_, ?_, ?_⟩
    · rw [h.newlinesBefore_eq, List.length_idxsOf, count_octets]
      exact h.number
    · rw [h.lineStart_eq, h.lineStop_eq, h.extract_eq]
    · have hoffset := h.column
      rw [h.lineStart_eq]
      omega

/-- Inside the second character of a line, on an empty line, and at the end behind a newline. -/
example : (lineAt "x\né\n\n" 3, lineAt "x\né\n\n" 5, lineAt "x\né\n\n" 6) =
    (some ⟨2, "é\n", 1⟩, some ⟨3, "\n", 0⟩, some ⟨4, "", 0⟩) := by decide +kernel

end ExprLang
