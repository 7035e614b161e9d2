import ExprLang.Proofs.Recovery.SameTokens
import ExprLang.Proofs.Scanning.Separated

/-!
# Useless tokens are objected to

A token that no form of the grammar has use for is objected to once, wherever it stands
(`parse_objects`): in the account of a source there is a failure on it, and no other one.  Where it
starts tells it from the other tokens as long as positions hold the offset.  Behind `maxOffset`
bytes they do not, and the reports on two such tokens show at one place
(`not_parse_objects_singleton`).
-/

namespace ExprLang

open Grammar

/-! ### Tokens without a use -/

/-- No form of the grammar has use for the token: nothing begins with it or goes on with it, or it
is a number above those of the language. -/
inductive Token.Useless (t : Token) : Prop
  | illegal (h : t.kind = .illegal)
  | comma (h : t.kind = .comma)
  | fnWord (h : t.kind = .fnWord)
  | number (h : t.kind = .int) (hv : Decimal.limit ≤ Decimal.value t.literal.toList)

/-- What is wrong with a useless token. -/
def Token.objection (t : Token) : Cause :=
  if t.kind = .int then .badNumber t.literal else .noOperand t.kind

theorem Token.Useless.isUsable_eq_false {t : Token} (h : t.Useless) :
    t.kind.isUsable t.literal = false := by
  cases h with
  | illegal h | comma h | fnWord h =>
    rw [h]
    rfl
  | number h hv =>
    have hnone : Decimal.ofLiteral? t.literal = none := by
      refine Option.eq_none_iff_forall_ne_some.2 fun n hn => ?_
      obtain ⟨-, -, rfl, hlt⟩ := Decimal.ofLiteral?_eq_some.1 hn
      exact absurd hv (Nat.not_le_of_lt hlt)
    rw [h, Kind.isUsable, hnone]
    rfl

theorem Token.Useless.not_usable {t : Token} (h : t.Useless) : ¬ t.Usable :=
  Bool.eq_false_iff.1 h.isUsable_eq_false

theorem Token.Useless.kind_ne_eof {t : Token} (h : t.Useless) : t.kind ≠ .eof := by
  intro hk
  cases h with
  | illegal h | comma h | fnWord h | number h => exact absurd (hk.symm.trans h) nofun

/-- What a failure on a token says that is of no use. -/
theorem Blames.of_not_usable {limit k : Nat} {c : Cursor} {d : Diagnostic} (h : Blames limit c k d)
    (hu : ¬ (c.token k).Usable) :
    d.isUnexpected = false ∧ (d.cause = (c.token k).objection ∨ d.cause = .tooDeep limit) := by
  cases h with
  | noOperand h =>
    refine ⟨rfl, .inl (if_neg fun hk => ?_).symm⟩
    rw [hk] at h
    exact absurd (h expression) nofun
  | badNumber hk _ => exact ⟨rfl, .inl (if_pos hk).symm⟩
  | tooDeep => exact ⟨rfl, .inr rfl⟩
  | unexpected h => exact absurd h hu

section

variable {source : String} {file : Option String} {limit i j m : Nat} {ds : List Diagnostic}
  (ha : Account limit (Session.ofSource source file).cursor i j ds)

include ha

/-- A report that is not about a token that was to follow shows on one of those that were passed. -/
theorem Account.exists_position {e : Diagnostic} (he : e ∈ ds) (hu : e.isUnexpected = false) :
    ∃ k, i ≤ k ∧ k < j ∧ e.position = (tokenStream source file k).position := by
  obtain ⟨k, hi, hj, hb⟩ := ha.exists_blames he
  have hp := hb.position_eq
  rw [Diagnostic.place_of_not_isUnexpected hu] at hp
  exact ⟨k, hi, hj, hp⟩

/-- So it does not show where a token starts that was passed earlier or later. -/
theorem Account.filter_start_eq_nil (hm : (tokenStream source file m).kind ≠ .eof)
    (hmax : (tokenStream source file m).span.start < maxOffset) (hout : m < i ∨ j ≤ m) :
    ds.filter (fun e => !e.isUnexpected &&
      e.position.offset == (tokenStream source file m).span.start) = [] := by
  refine List.filter_eq_nil_iff.2 fun e he hp => ?_
  rw [Bool.and_eq_true, Bool.not_eq_true', beq_iff_eq] at hp
  obtain ⟨k, hik, hkj, hpos⟩ := ha.exists_position he hp.1
  have hstart : (tokenStream source file k).span.start = (tokenStream source file m).span.start :=
    (congrArg Position.offset hpos).symm.trans hp.2
  exact start_tokenStream_ne hm hmax (by omega) hstart

end

/-- Between reports on earlier and on later tokens, the report on a token is the only one that shows
where the token starts. -/
theorem filter_start_eq_singleton {source : String} {file : Option String} {limit m n : Nat}
    {before after : List Diagnostic} {d : Diagnostic}
    (hbefore : Account limit (Session.ofSource source file).cursor 0 m before)
    (hafter : Account limit (Session.ofSource source file).cursor (m + 1) n after)
    (hu : d.isUnexpected = false) (hd : d.position = (tokenStream source file m).position)
    (hm : (tokenStream source file m).kind ≠ .eof)
    (hmax : (tokenStream source file m).span.start < maxOffset) :
    (before ++ d :: after).filter (fun e => !e.isUnexpected &&
      e.position.offset == (tokenStream source file m).span.start) = [d] := by
  have hself : (!d.isUnexpected &&
      d.position.offset == (tokenStream source file m).span.start) = true := by
    rw [hu, hd]
    exact beq_self_eq_true _
  have hearlier := hbefore.filter_start_eq_nil hm hmax (.inr (Nat.le_refl m))
  have hlater := hafter.filter_start_eq_nil hm hmax (.inl (Nat.lt_succ_self m))
  rw [List.filter_append, List.filter_cons, if_pos hself, hearlier, hlater, List.nil_append]

/-- **No useless token is passed in silence.**  Among the reports there is one that objects to it,
or says that it is too deep.  Of those that are not about a token that was to follow, the ones
before it are about earlier tokens and the ones behind it about later tokens.  So it is the only one
of these that shows where the token starts, if this is below `maxOffset`: from there on there is no
telling the tokens apart by where they start. -/
theorem parse_objects (source : String) (file : Option String) (i : Nat) (t : Token)
    (hi : (tokenize source file)[i]? = some t) (hu : t.Useless) :
    ∃ before d after, (parse source file).2.toList = before ++ d :: after ∧
      d.isUnexpected = false ∧ d.position = t.position ∧
      (d.cause = t.objection ∨ d.cause = .tooDeep maxLevels) ∧
      (∀ e ∈ before, e.isUnexpected = false →
        ∃ k u, k < i ∧ (tokenize source file)[k]? = some u ∧ e.position = u.position) ∧
      (∀ e ∈ after, e.isUnexpected = false →
        ∃ k u, i < k ∧ (tokenize source file)[k]? = some u ∧ e.position = u.position) ∧
      (source.utf8ByteSize ≤ maxOffset → t.span.start < maxOffset) ∧
      (t.span.start < maxOffset → (parse source file).2.toList.filter
        (fun e => !e.isUnexpected && e.position.offset == t.span.start) = [d]) := by
  obtain rfl := tokenStream_of_getElem? hi
  have hlt : i < (Scanner.ofSource source file).upcoming.length :=
    Nat.lt_of_not_le fun hle => hu.kind_ne_eof (kind_tokenStream_eq_eof_iff.2 hle)
  have hnot : ¬ ((Session.ofSource source file).cursor.token i).Usable := by
    rw [token_ofSource]
    exact hu.not_usable
  obtain ⟨n, hn, ha⟩ := account_parse source file
  obtain ⟨before, d, after, hds, hbefore, hd, hafter⟩ := ha.exists_of_not_usable (Nat.zero_le i)
    (Nat.lt_of_lt_of_le hlt (kind_tokenStream_eq_eof_iff.1 hn)) hnot
  obtain ⟨hdu, hcause⟩ := hd.of_not_usable hnot
  have hpos := hd.position_eq
  rw [Diagnostic.place_of_not_isUnexpected hdu] at hpos
  rw [token_ofSource] at hcause
  refine ⟨before, d, after, hds, hdu, hpos, hcause, fun e he heu => ?_, fun e he heu => ?_,
    fun hsize => ?_, fun h => ?_⟩
  · obtain ⟨k, -, hki, hp⟩ := hbefore.exists_position he heu
    exact ⟨_, _, by omega, getElem?_min_tokenize source file k, hp⟩
  · obtain ⟨k, hik, -, hp⟩ := hafter.exists_position he heu
    exact ⟨_, _, by omega, getElem?_min_tokenize source file k, hp⟩
  · exact Nat.lt_of_lt_of_le (start_tokenStream_lt_utf8ByteSize hu.kind_ne_eof) hsize
  · rw [hds]
    exact filter_start_eq_singleton hbefore hafter hdu hpos hu.kind_ne_eof h

/-- The number behind the accent and the name is one too large. -/
theorem parse_objects_number :
    (tokenize "é x 9223372036854775808" none)[2]? =
        some ⟨.int, "9223372036854775808", ⟨5, 24, "shell"⟩⟩ ∧
      Token.Useless ⟨.int, "9223372036854775808", ⟨5, 24, "shell"⟩⟩ ∧
      ∃ d, (parse "é x 9223372036854775808" none).2.toList.filter
        (fun e => !e.isUnexpected && e.position.offset == 5) = [d] ∧
        (d.cause = .badNumber "9223372036854775808" ∨ d.cause = .tooDeep 128) := by
  have hi : (tokenize "é x 9223372036854775808" none)[2]? =
      some ⟨.int, "9223372036854775808", ⟨5, 24, "shell"⟩⟩ := by decide +kernel
  have hu : Token.Useless ⟨.int, "9223372036854775808", ⟨5, 24, "shell"⟩⟩ :=
    .number rfl (by decide)
  obtain ⟨_, d, _, -, -, -, hcause, -, -, -, h⟩ := parse_objects _ _ _ _ hi hu
  exact ⟨hi, hu, d, h (by decide), hcause⟩

/-! ### Places that positions cannot tell apart -/

/-- A report on two characters shows on the same character if there are spaces before them. -/
theorem SameReport.eq_of_straysBehind {n i : Nat} {d : Diagnostic} {cause : Cause}
    (h : SameReport (straysBehind n).text none (straysBehind 0).text none d ⟨cause, ⟨i, "shell"⟩⟩) :
    d = ⟨cause, ⟨min (n + i) maxOffset, "shell"⟩⟩ := by
  obtain ⟨dcause, position⟩ := d
  obtain ⟨rfl, k, t, u, ht, hu, rfl, hi⟩ := h
  rw [tokenize_straysBehind] at ht hu
  match k with
  | 0 | 1 | 2 =>
    cases ht
    cases hu
    cases hi
    rfl
  | _ + 3 => exact absurd ht nofun

theorem toList_errors_straysBehind (n : Nat) : (parse (straysBehind n).text none).2.toList =
    [⟨.noOperand .illegal, ⟨min n maxOffset, "shell"⟩⟩,
      ⟨.noOperand .illegal, ⟨min (n + 1) maxOffset, "shell"⟩⟩] := by
  have hsame : (tokenize (straysBehind n).text none).map (fun t => (t.kind, t.literal)) =
      (tokenize (straysBehind 0).text none).map fun t => (t.kind, t.literal) := by
    rw [tokenize_straysBehind, tokenize_straysBehind]
    rfl
  have hnear : (parse (straysBehind 0).text none).2.toList =
      [⟨.noOperand .illegal, ⟨0, "shell"⟩⟩, ⟨.noOperand .illegal, ⟨1, "shell"⟩⟩] := by
    decide +kernel
  have hreports := forall₂_sameReport hsame
  rw [hnear] at hreports
  obtain ⟨d, _, hd, hds, hlist⟩ := List.forall₂_cons_right_iff.1 hreports
  obtain ⟨e, _, he, hes, rfl⟩ := List.forall₂_cons_right_iff.1 hds
  obtain rfl := List.forall₂_nil_right_iff.1 hes
  rw [hlist, hd.eq_of_straysBehind, he.eq_of_straysBehind]
  rfl

/-- Behind `maxOffset` bytes there are two reports at the place of one useless token: the second one
is about the other. -/
theorem not_parse_objects_singleton :
    (tokenize (straysBehind 4294967295).text none)[0]? =
        some ⟨.illegal, "@", ⟨4294967295, 4294967295, "shell"⟩⟩ ∧
      Token.Useless ⟨.illegal, "@", ⟨4294967295, 4294967295, "shell"⟩⟩ ∧
      (parse (straysBehind 4294967295).text none).2.toList.filter
          (fun e => !e.isUnexpected && e.position.offset == 4294967295) =
        [⟨.noOperand .illegal, ⟨4294967295, "shell"⟩⟩,
          ⟨.noOperand .illegal, ⟨4294967295, "shell"⟩⟩] ∧
      ¬ ∀ (source : String) (file : Option String) (t : Token), t ∈ tokenize source file →
        t.Useless → ∃ d, (parse source file).2.toList.filter
          (fun e => !e.isUnexpected && e.position.offset == t.span.start) = [d] := by
  have hread : (tokenize (straysBehind 4294967295).text none)[0]? =
      some ⟨.illegal, "@", ⟨4294967295, 4294967295, "shell"⟩⟩ := by
    rw [tokenize_straysBehind]
    rfl
  have huseless : Token.Useless ⟨.illegal, "@", ⟨4294967295, 4294967295, "shell"⟩⟩ := .illegal rfl
  have hreports : (parse (straysBehind 4294967295).text none).2.toList.filter
      (fun e => !e.isUnexpected && e.position.offset == 4294967295) =
        [⟨.noOperand .illegal, ⟨4294967295, "shell"⟩⟩,
          ⟨.noOperand .illegal, ⟨4294967295, "shell"⟩⟩] := by
    rw [toList_errors_straysBehind]
    rfl
  refine ⟨hread, huseless, hreports, fun hall => ?_⟩
  obtain ⟨d, hd⟩ := hall _ _ _ (List.mem_of_getElem? hread) huseless
  exact absurd (hreports.symm.trans hd) nofun

end ExprLang
