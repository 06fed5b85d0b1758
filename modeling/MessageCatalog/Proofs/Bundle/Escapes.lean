import MessageCatalog.Proofs.Bundle.LogicalLines
import MessageCatalog.Proofs.Bundle.Spelling

namespace MessageCatalog.Properties

open Text (isHighSurrogate isLowSurrogate)

inductive Token : List Char → Letter → Prop where
  | plain {c : Char} (hc : c ≠ '\\') : Token [c] ⟨c, false⟩
  | escaped {c : Char} (hc : c ≠ 'u') : Token ['\\', c] ⟨escapedChar c, true⟩
  | unit {c : Char} {n : Nat} {e : List Char} (hc : Text.units c = [n]) (he : SpellsUnit n e) :
      Token e ⟨c, true⟩
  | pair {c : Char} {high low : Nat} {e f : List Char} (hc : Text.units c = [high, low])
      (he : SpellsUnit high e) (hf : SpellsUnit low f) : Token (e ++ f) ⟨c, true⟩

inductive Reads : List Char → List Letter → Prop where
  | nil : Reads [] []
  | cons {t cs : List Char} {l : Letter} {ls : List Letter} (ht : Token t l) (hs : Reads cs ls) :
      Reads (t ++ cs) (l :: ls)

inductive WellFormed : List Char → Prop where
  | unit {n : Nat} {e : List Char} (he : SpellsUnit n e) (hh : isHighSurrogate n = false)
      (hl : isLowSurrogate n = false) (rest : List Char) : WellFormed (e ++ rest)
  | pair {high low : Nat} {e f : List Char} (he : SpellsUnit high e) (hf : SpellsUnit low f)
      (hh : isHighSurrogate high = true) (hl : isLowSurrogate low = true) (rest : List Char) :
      WellFormed (e ++ (f ++ rest))

def IsPairSeam (before after : List Char) : Prop :=
  ∃ high low start e f rest, before = start ++ e ∧ after = f ++ rest ∧ EndsEven start ∧
    SpellsUnit high e ∧ SpellsUnit low f ∧ isHighSurrogate high = true ∧ isLowSurrogate low = true

/-- A unicode escape stands between the texts, and is neither well-formed nor the second of a pair. -/
structure IsMalformed (before after : List Char) : Prop where
  starts : EndsEven before
  ill : ¬WellFormed ('\\' :: 'u' :: after)
  alone : ¬IsPairSeam before ('\\' :: 'u' :: after)

def HasMalformed (line : List Char) : Prop :=
  ∃ before after, line = before ++ '\\' :: 'u' :: after ∧ IsMalformed before after

theorem SpellsUnit.length {n : Nat} {e : List Char} (h : SpellsUnit n e) : e.length = 6 := by
  obtain ⟨_, _, _, _⟩ := h
  rfl

theorem SpellsUnit.lt {n : Nat} {e : List Char} (h : SpellsUnit n e) : n < 0x10000 := by
  obtain ⟨hp, hq, hr, hs⟩ := h
  have := Text.lt_of_writesDigit hp
  have := Text.lt_of_writesDigit hq
  have := Text.lt_of_writesDigit hr
  have := Text.lt_of_writesDigit hs
  omega

theorem SpellsUnit.tail {n : Nat} {e : List Char} (h : SpellsUnit n e) :
    ∃ t, e = '\\' :: 'u' :: t ∧ '\\' ∉ 'u' :: t := by
  obtain ⟨hp, hq, hr, hs⟩ := h
  refine ⟨_, rfl, ?_⟩
  have hdigit {k : Nat} {p : Char} (h : Text.WritesDigit k p) : '\\' ≠ p := by
    rintro rfl
    exact absurd (Text.mem_digits_of_writesDigit h) (by decide)
  simp [hdigit hp, hdigit hq, hdigit hr, hdigit hs]

theorem spellsUnit_of_unit? {a b c d : Char} {n : Nat} (h : Text.unit? a b c d = some n) :
    SpellsUnit n ['\\', 'u', a, b, c, d] := by
  simp only [Text.unit?, Option.bind_eq_bind, Option.bind_eq_some_iff, Option.pure_def,
    Option.some.injEq] at h
  obtain ⟨p, hp, q, hq, r, hr, s, hs, rfl⟩ := h
  exact .digits (Text.writesDigit_of_hexValue? hp) (Text.writesDigit_of_hexValue? hq)
    (Text.writesDigit_of_hexValue? hr) (Text.writesDigit_of_hexValue? hs)

theorem SpellsUnit.unique {n m : Nat} {e : List Char} (hn : SpellsUnit n e) (hm : SpellsUnit m e) :
    n = m := by
  have hp := pieces?_unit hn []
  rw [pieces?_unit hm [], pieces?, Option.map_some, Option.map_some, Option.some.injEq,
    List.cons.injEq, Piece.unit.injEq] at hp
  exact hp.1.symm

theorem SpellsUnit.append_inj {n m : Nat} {e f as bs : List Char} (hn : SpellsUnit n e)
    (hm : SpellsUnit m f) (h : e ++ as = f ++ bs) : n = m ∧ as = bs := by
  obtain ⟨rfl, hrest⟩ := List.append_inj h (by rw [hn.length, hm.length])
  exact ⟨hn.unique hm, hrest⟩

theorem SpellsUnit.endsEven {n : Nat} {e : List Char} (h : SpellsUnit n e) : EndsEven e := by
  obtain ⟨t, d, rfl, hd⟩ := h.last
  exact endsEven_iff.mpr (continues_concat hd t)

theorem not_high_of_units {c : Char} {n : Nat} (h : Text.units c = [n]) : isHighSurrogate n = false := by
  cases hn : isHighSurrogate n with
  | false => rfl
  | true =>
    have hnone := Text.ofUnit?_of_high hn
    rw [Text.units_eq_singleton h, Text.ofUnit?_toNat] at hnone
    cases hnone

theorem not_low_of_units {c : Char} {n : Nat} (h : Text.units c = [n]) : isLowSurrogate n = false := by
  cases hn : isLowSurrogate n with
  | false => rfl
  | true =>
    have hnone := Text.ofUnit?_eq_none.mpr (.inr hn)
    rw [Text.units_eq_singleton h, Text.ofUnit?_toNat] at hnone
    cases hnone

theorem not_high_of_low {n : Nat} (h : isLowSurrogate n = true) : isHighSurrogate n = false := by
  simp only [isHighSurrogate, isLowSurrogate, Bool.and_eq_true, Bool.and_eq_false_iff,
    decide_eq_true_eq, decide_eq_false_iff_not] at *
  omega

namespace Token

variable {t rest before after : List Char} {l : Letter}

theorem letters (h : Token t l) (rest : List Char) :
    letters (t ++ rest) = (letters rest).map (l :: ·) := by
  cases h with
  | plain hc => exact letters_plain hc rest
  | escaped hc => exact letters_escaped hc rest
  | unit hc he => exact letters_unit hc he rest
  | pair hc he hf => exact letters_pair hc he hf rest

theorem ne_nil (h : Token t l) : t ≠ [] := by
  cases h with
  | plain _ => exact List.cons_ne_nil _ _
  | escaped _ => exact List.cons_ne_nil _ _
  | unit _ he =>
    obtain ⟨_, rfl, -⟩ := he.tail
    exact List.cons_ne_nil _ _
  | pair _ he _ =>
    obtain ⟨_, rfl, -⟩ := he.tail
    exact List.cons_ne_nil _ _

theorem endsEven (h : Token t l) : EndsEven t := by
  cases h with
  | plain hc => exact endsEven_iff.mpr (continues_concat hc [])
  | @escaped c _ =>
    by_cases hc : c = '\\'
    · subst hc
      rfl
    · exact endsEven_iff.mpr (continues_concat hc ['\\'])
  | unit _ he => exact he.endsEven
  | pair _ he hf => exact he.endsEven.append_iff.mpr hf.endsEven

theorem wellFormed (h : Token t l) (heq : t ++ rest = '\\' :: 'u' :: after) :
    WellFormed ('\\' :: 'u' :: after) := by
  cases h with
  | plain hc =>
    cases heq
    exact absurd rfl hc
  | escaped hc =>
    cases heq
    exact absurd rfl hc
  | unit hc he =>
    rw [← heq]
    exact .unit he (not_high_of_units hc) (not_low_of_units hc) rest
  | pair hc he hf =>
    rw [← heq, List.append_assoc]
    exact .pair he hf (Text.isHighSurrogate_of_units hc) (Text.isLowSurrogate_of_units hc) rest

end Token

theorem exists_append_of_length_le {α : Type} {as bs cs ds : List α} (h : as ++ bs = cs ++ ds)
    (hl : as.length ≤ cs.length) : ∃ es, cs = as ++ es := by
  obtain ⟨es, hes⟩ := List.prefix_of_prefix_length_le ⟨bs, h⟩ (List.prefix_append cs ds) hl
  exact ⟨es, hes.symm⟩

theorem mem_of_append_eq {α : Type} {x : α} {as bs cs ds : List α} (h : as ++ bs = cs ++ x :: ds)
    (hl : cs.length < as.length) : x ∈ as := by
  rcases List.append_eq_append_iff.mp h with ⟨es, rfl, -⟩ | ⟨es, rfl, hes⟩
  · rw [List.length_append] at hl
    omega
  · cases es with
    | nil =>
      rw [List.append_nil] at hl
      omega
    | cons e es =>
      cases hes
      exact List.mem_append_right _ List.mem_cons_self

theorem SpellsUnit.nil_of_start {n : Nat} {e rest before after : List Char} (h : SpellsUnit n e)
    (heq : e ++ rest = before ++ '\\' :: after) (hl : before.length < e.length) : before = [] := by
  obtain ⟨t, rfl, ht⟩ := h.tail
  cases before with
  | nil => rfl
  | cons c before =>
    have hrest : ('u' :: t) ++ rest = before ++ '\\' :: after := (List.cons.inj heq).2
    exact absurd (mem_of_append_eq hrest (Nat.lt_of_succ_lt_succ hl)) ht

theorem Token.start {t rest before after : List Char} {l : Letter} (h : Token t l)
    (heq : t ++ rest = before ++ '\\' :: after) (he : EndsEven before) (hl : before.length < t.length) :
    before = [] ∨ ∃ high low f, t = before ++ f ∧ SpellsUnit high before ∧ SpellsUnit low f ∧
      isHighSurrogate high = true ∧ isLowSurrogate low = true := by
  cases h with
  | plain _ => exact .inl (List.length_eq_zero_iff.mp (Nat.lt_one_iff.mp hl))
  | escaped hc =>
    cases before with
    | nil => exact .inl rfl
    | cons b before =>
      -- the second character of a short escape stands after a single backslash
      cases before with
      | nil =>
        cases heq
        cases he
      | cons _ _ =>
        simp only [List.length_cons, List.length_nil] at hl
        omega
  | unit _ hu => exact .inl (hu.nil_of_start heq hl)
  | @pair c high low e f hc hu hf =>
    rw [List.append_assoc] at heq
    by_cases hb : before.length < e.length
    · exact .inl (hu.nil_of_start heq hb)
    · obtain ⟨before, rfl⟩ := exists_append_of_length_le heq (by omega)
      rw [List.append_assoc, List.append_cancel_left_eq] at heq
      have hnil : before = [] := by
        apply hf.nil_of_start heq
        rw [List.length_append, List.length_append] at hl
        omega
      subst hnil
      rw [List.append_nil]
      exact .inr ⟨high, low, f, rfl, hu, hf, Text.isHighSurrogate_of_units hc,
        Text.isLowSurrogate_of_units hc⟩

theorem WellFormed.exists_token {cs : List Char} (h : WellFormed cs) :
    ∃ t l rest, Token t l ∧ cs = t ++ rest := by
  cases h with
  | @unit n e he hh hl rest =>
    obtain ⟨c, hc⟩ : ∃ c, Text.ofUnit? n = some c := by
      apply Option.ne_none_iff_exists'.mp
      rw [ne_eq, Text.ofUnit?_eq_none, hh, hl]
      exact nofun
    exact ⟨e, ⟨c, true⟩, rest, .unit ((Text.ofUnit?_eq_some he.lt).mp hc) he, rfl⟩
  | @pair high low e f he hf hh hl rest =>
    obtain ⟨c, hc⟩ := Text.exists_units_eq_pair hh hl
    exact ⟨e ++ f, ⟨c, true⟩, rest, .pair hc he hf, by rw [List.append_assoc]⟩

theorem line_cases (line : List Char) :
    line = [] ∨ line = ['\\'] ∨ (∃ t l rest, Token t l ∧ line = t ++ rest) ∨
      ∃ after, line = '\\' :: 'u' :: after ∧ ¬WellFormed line := by
  rcases line with - | ⟨c, line⟩
  · exact .inl rfl
  by_cases hc : c = '\\'
  · subst hc
    rcases line with - | ⟨d, line⟩
    · exact .inr (.inl rfl)
    by_cases hd : d = 'u'
    · subst hd
      by_cases hw : WellFormed ('\\' :: 'u' :: line)
      · exact .inr (.inr (.inl hw.exists_token))
      · exact .inr (.inr (.inr ⟨line, rfl, hw⟩))
    · exact .inr (.inr (.inl ⟨['\\', d], _, line, .escaped hd, rfl⟩))
  · exact .inr (.inr (.inl ⟨[c], _, line, .plain hc, rfl⟩))

theorem pieces?_eq_unit_cons {cs : List Char} {n : Nat} {ps : List Piece}
    (h : pieces? cs = some (.unit n :: ps)) :
    ∃ e rest, cs = e ++ rest ∧ SpellsUnit n e ∧ pieces? rest = some ps := by
  unfold pieces? at h
  split at h
  case h_2 =>
    simp only [Option.bind_eq_bind, Option.bind_eq_some_iff, Option.pure_def, Option.some.injEq,
      List.cons.injEq, Piece.unit.injEq] at h
    obtain ⟨n, hn, ps, hps, rfl, rfl⟩ := h
    exact ⟨_, _, rfl, spellsUnit_of_unit? hn, hps⟩
  -- no other piece is a unit
  all_goals simp at h

theorem pieces?_escape {after : List Char} {ps : List Piece}
    (h : pieces? ('\\' :: 'u' :: after) = some ps) : ∃ n qs, ps = .unit n :: qs := by
  match after with
  | a :: b :: c :: d :: after =>
    rw [pieces?] at h
    simp only [Option.bind_eq_bind, Option.bind_eq_some_iff, Option.pure_def, Option.some.injEq] at h
    obtain ⟨n, -, qs, -, rfl⟩ := h
    exact ⟨n, qs, rfl⟩
  | [] | [_] | [_, _] | [_, _, _] => simp [pieces?] at h

theorem wellFormed_of_letters? {e rest : List Char} {n : Nat} {ps : List Piece} {ls : List Letter}
    (he : SpellsUnit n e) (hp : pieces? rest = some ps) (h : letters? (.unit n :: ps) = some ls) :
    WellFormed (e ++ rest) := by
  unfold letters? at h
  split at h
  case h_1 hn =>
    have hsurrogate : ¬(isHighSurrogate n = true ∨ isLowSurrogate n = true) := by
      rw [← Text.ofUnit?_eq_none, hn]
      exact nofun
    rw [not_or, Bool.not_eq_true, Bool.not_eq_true] at hsurrogate
    exact .unit he hsurrogate.1 hsurrogate.2 rest
  case h_2 m later hn =>
    obtain ⟨f, tail, rfl, hf, -⟩ := pieces?_eq_unit_cons hp
    simp only [Option.bind_eq_bind, Option.bind_eq_some_iff] at h
    obtain ⟨c, hc, -⟩ := h
    have hs := Text.surrogates_of_ofPair? hc
    exact .pair he hf hs.1 hs.2 tail
  case h_3 => cases h

theorem letters_of_not_wellFormed {after : List Char} (h : ¬WellFormed ('\\' :: 'u' :: after)) :
    letters ('\\' :: 'u' :: after) = none := by
  rw [Option.eq_none_iff_forall_ne_some]
  intro ls hls
  obtain ⟨ps, hps, hps'⟩ := Option.bind_eq_some_iff.mp hls
  obtain ⟨n, qs, rfl⟩ := pieces?_escape hps
  obtain ⟨e, rest, heq, he, hqs⟩ := pieces?_eq_unit_cons hps
  rw [heq] at h
  exact h (wellFormed_of_letters? he hqs hps')

theorem Reads.not_high {cs start e : List Char} {ls : List Letter} {high : Nat} (h : Reads cs ls)
    (heq : cs = start ++ e) (hs : EndsEven start) (he : SpellsUnit high e)
    (hh : isHighSurrogate high = true) : False := by
  induction h generalizing start with
  | nil =>
    obtain ⟨t, rfl, -⟩ := he.tail
    cases start <;> cases heq
  | @cons t cs l ls ht _ ih =>
    by_cases hl : start.length < t.length
    · obtain ⟨tail, htail, -⟩ := he.tail
      have hsplit : t ++ cs = start ++ '\\' :: 'u' :: tail := by rw [heq, htail]
      rcases ht.start hsplit hs hl with rfl | ⟨_, low, f, rfl, _, hf, _, hlow⟩
      · have hle : t ++ cs = e ++ [] := by rw [heq, List.nil_append, List.append_nil]
        cases ht with
        | plain hc => simp_all
        | escaped hc => simp_all
        | unit hc hu =>
          obtain ⟨rfl, -⟩ := hu.append_inj he hle
          rw [not_high_of_units hc] at hh
          cases hh
        | pair hc hu hf =>
          rw [List.append_assoc] at hle
          obtain ⟨-, hnil⟩ := hu.append_inj he hle
          obtain ⟨t, rfl, -⟩ := hf.tail
          cases hnil
      · rw [List.append_assoc, List.append_cancel_left_eq] at heq
        have hle : f ++ cs = e ++ [] := by rw [heq, List.append_nil]
        obtain ⟨rfl, -⟩ := hf.append_inj he hle
        rw [not_high_of_low hlow] at hh
        cases hh
    · obtain ⟨start, rfl⟩ := exists_append_of_length_le heq (by omega)
      rw [List.append_assoc, List.append_cancel_left_eq] at heq
      exact ih heq (ht.endsEven.append_iff.mp hs)

theorem Reads.endsEven {cs : List Char} {ls : List Letter} (h : Reads cs ls) : EndsEven cs := by
  induction h with
  | nil => exact endsEven_nil
  | cons ht _ ih => exact ht.endsEven.append_iff.mpr ih

theorem letters_of_reads {cs : List Char} {ls : List Letter} (h : Reads cs ls) : letters cs = some ls := by
  induction h with
  | nil => rfl
  | cons ht _ ih => rw [ht.letters, ih, Option.map_some]

theorem exists_reads (line : List Char) :
    ∃ before ls rest, line = before ++ rest ∧ Reads before ls ∧
      (rest = [] ∨ rest = ['\\'] ∨ ∃ after, rest = '\\' :: 'u' :: after ∧ ¬WellFormed rest) := by
  induction hn : line.length using Nat.strongRecOn generalizing line with
  | ind n ih =>
    subst hn
    rcases line_cases line with rfl | rfl | ⟨t, l, rest, ht, rfl⟩ | ⟨after, rfl, hw⟩
    · exact ⟨[], [], [], rfl, .nil, .inl rfl⟩
    · exact ⟨[], [], ['\\'], rfl, .nil, .inr (.inl rfl)⟩
    · have hlt : rest.length < (t ++ rest).length := by
        have := List.length_pos_iff.mpr ht.ne_nil
        rw [List.length_append]
        omega
      obtain ⟨before, ls, rest, rfl, hreads, hend⟩ := ih rest.length hlt rest rfl
      exact ⟨t ++ before, l :: ls, rest, by rw [List.append_assoc], .cons ht hreads, hend⟩
    · exact ⟨[], [], _, rfl, .nil, .inr (.inr ⟨after, rfl, hw⟩)⟩

theorem letters_append {before rest : List Char} {ls : List Letter} (h : Reads before ls) :
    letters (before ++ rest) = (letters rest).map (ls ++ ·) := by
  induction h with
  | nil => simp
  | cons ht _ ih =>
    rw [List.append_assoc, ht.letters, ih, Option.map_map]
    rfl

theorem hasMalformed_of_reads {before after : List Char} {ls : List Letter} (h : Reads before ls)
    (hw : ¬WellFormed ('\\' :: 'u' :: after)) : HasMalformed (before ++ '\\' :: 'u' :: after) := by
  refine ⟨before, after, rfl, h.endsEven, hw, ?_⟩
  rintro ⟨high, low, start, e, f, rest, heq, -, hs, he, -, hh, -⟩
  exact h.not_high heq hs he hh

theorem letters_of_isMalformed {before after : List Char} (h : IsMalformed before after) :
    letters (before ++ '\\' :: 'u' :: after) = none := by
  induction hn : before.length using Nat.strongRecOn generalizing before with
  | ind n ih =>
    subst hn
    generalize hline : before ++ '\\' :: 'u' :: after = line
    rcases line_cases line with rfl | rfl | ⟨t, l, rest, ht, rfl⟩ | ⟨_, rfl, hw⟩
    · simp at hline
    · simp [List.append_eq_singleton_iff] at hline
    · by_cases hl : before.length < t.length
      · rcases ht.start hline.symm h.starts hl with rfl | ⟨high, low, f, rfl, he, hf, hh, hlow⟩
        · exact absurd (ht.wellFormed hline.symm) h.ill
        · rw [List.append_assoc, List.append_cancel_left_eq] at hline
          exact absurd ⟨high, low, [], before, f, rest, rfl, hline, endsEven_nil, he, hf, hh, hlow⟩
            h.alone
      · obtain ⟨later, rfl⟩ := exists_append_of_length_le hline.symm (by omega)
        rw [List.append_assoc, List.append_cancel_left_eq] at hline
        have hlater : IsMalformed later after := by
          refine ⟨ht.endsEven.append_iff.mp h.starts, h.ill, ?_⟩
          rintro ⟨high, low, start, e, f, tail, rfl, hf, hs, hpair⟩
          exact h.alone ⟨high, low, t ++ start, e, f, tail, by rw [List.append_assoc], hf,
            ht.endsEven.append_iff.mpr hs, hpair⟩
        have hlt : later.length < (t ++ later).length := by
          have := List.length_pos_iff.mpr ht.ne_nil
          rw [List.length_append]
          omega
        rw [ht.letters, ← hline, ih later.length hlt hlater rfl, Option.map_none]
    · exact letters_of_not_wellFormed hw

theorem letters_eq_none_iff {line : List Char} : letters line = none ↔ HasMalformed line := by
  constructor
  · intro h
    obtain ⟨before, ls, rest, rfl, hreads, rfl | rfl | ⟨after, rfl, hw⟩⟩ := exists_reads line
    · rw [letters_append hreads] at h
      cases h
    · rw [letters_append hreads] at h
      cases h
    · exact hasMalformed_of_reads hreads hw
  · rintro ⟨before, after, rfl, h⟩
    exact letters_of_isMalformed h

theorem reads_of_letters {line : List Char} {ls : List Letter} (h : letters line = some ls)
    (he : EndsEven line) : Reads line ls := by
  obtain ⟨before, ks, rest, rfl, hreads, rfl | rfl | ⟨after, rfl, hw⟩⟩ := exists_reads line
  · rw [List.append_nil] at h ⊢
    rw [letters_of_reads hreads] at h
    cases h
    exact hreads
  · have hodd := hreads.endsEven.append_iff.mp he
    cases hodd
  · rw [letters_append hreads, letters_of_not_wellFormed hw] at h
    cases h

end MessageCatalog.Properties
