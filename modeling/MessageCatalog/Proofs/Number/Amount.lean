import MessageCatalog.Proofs.Number.QuotedAffixes
import MessageCatalog.Proofs.Number.Sign
import MessageCatalog.Proofs.Text.Occurrences

/-!
Amounts: digits between affixes that hold a sign once, with spaces and at most a minus beside it. Neither
digits nor spaces are characters that such a sign is known by, so the whole text holds the sign once.
-/

namespace MessageCatalog

open Text (Mark Run occurrences)

theorem Locale.getD_row?_mem {α : Type} (rows : List (List String × α)) (otherwise : α) (l : Locale) :
    (l.row? rows).getD otherwise ∈ otherwise :: rows.map (·.2) := by
  cases h : l.row? rows with
  | none => exact List.mem_cons_self
  | some a =>
    obtain ⟨row, hrow, rfl⟩ := Option.map_eq_some_iff.mp h
    apply List.mem_cons_of_mem
    rcases Option.or_eq_some_iff.mp hrow with hrow | ⟨-, hrow⟩
    · exact List.mem_map_of_mem (List.mem_of_find?_eq_some hrow)
    · exact List.mem_map_of_mem (List.mem_of_find?_eq_some hrow)

def isAmountSign (c : Char) : Bool :=
  let n := c.toNat
  (0x41 ≤ n && n ≤ 0x5A) || (0x61 ≤ n && n ≤ 0x7A) || n == 0x24 || n == 0x25 ||
    (0xA3 ≤ n && n ≤ 0xA5) || n == 0x9F3 || n == 0xE3F || (0x20A0 ≤ n && n ≤ 0x20CF)

def isMute (c : Char) : Bool :=
  c != '-' && !isAmountSign c

namespace Numerals

def chars (n : Numerals) : List Char :=
  n.point :: n.separator :: (List.range 10).map n.digit

theorem all_isMute_table : (root :: table.map (·.2)).all (fun n => n.chars.all isMute) = true := by
  decide +kernel

theorem isMute_of_mem_chars {l : Locale} {c : Char} (h : c ∈ (ofLocale l).chars) : isMute c = true := by
  have hrow := List.all_eq_true.mp all_isMute_table _ (Locale.getD_row?_mem table root l)
  exact List.all_eq_true.mp hrow c h

variable {n : Numerals} {ds : List Nat}

theorem digits_subset_chars (hds : ∀ d ∈ ds, d < 10) : ds.map n.digit ⊆ n.chars := by
  intro c hc
  obtain ⟨d, hd, rfl⟩ := List.mem_map.mp hc
  have hdigit := List.mem_map_of_mem (f := n.digit) (List.mem_range.mpr (hds d hd))
  exact List.mem_cons_of_mem _ (List.mem_cons_of_mem _ hdigit)

theorem whole_subset_chars (hn : n.Lawful) (hds : ∀ d ∈ ds, d < 10) (grouped : Bool) :
    n.whole grouped ds ⊆ n.chars := by
  intro c hc
  by_cases hseparator : c = n.separator
  · rw [hseparator]
    exact List.mem_cons_of_mem _ List.mem_cons_self
  · apply digits_subset_chars hds
    rw [← filter_whole hn hds grouped]
    exact List.mem_filter.mpr ⟨hc, by simpa using hseparator⟩

end Numerals

namespace Numeric

variable {x : Numeric} {k : Nat}

theorem body_of_not_finite {b : Binary64} (hnan : b.isNaN = false) (h : b.isFinite = false)
    (layout : DigitLayout) (numerals : Numerals) : (double b).body layout numerals = "∞" := by
  cases b with
  | nan => cases hnan
  | signed negative rank =>
    have hle := Nat.le_of_lt_succ rank.isLt
    have hge : ¬rank.val < Binary64.infinityRank := of_decide_eq_false h
    exact body_of_infinite (Nat.le_antisymm hle (Nat.le_of_not_lt hge))

theorem isNaN_scale {b : Binary64} (h : b.isNaN = false) : (b.scale k).isNaN = false := by
  cases b with
  | nan => cases h
  | signed negative rank =>
    rw [Binary64.scale]
    split <;> rfl

theorem body_scale (hx : x.IsFinite) (layout : DigitLayout) (numerals : Numerals) :
    (x.scale k).IsFinite ∨ (x.scale k).body layout numerals = "∞" := by
  have hdouble : ∀ b : Binary64, b.isNaN = false →
      (double b).IsFinite ∨ (double b).body layout numerals = "∞" := by
    intro b hb
    cases hfinite : b.isFinite with
    | true => exact .inl hfinite
    | false => exact .inr (body_of_not_finite hb hfinite layout numerals)
  cases x with
  | integer n =>
    rw [scale]
    split
    case isTrue => exact .inl trivial
    case isFalse => exact hdouble _ (isNaN_scale rfl)
  | double b =>
    have hb : b.isNaN = false := by
      cases b with
      | nan => cases hx
      | signed => rfl
    rw [scale]
    split
    case isTrue => exact hdouble b hb
    case isFalse => exact hdouble _ (isNaN_scale hb)

theorem isMute_of_mem_body {l : Locale} {layout : DigitLayout}
    (h : x.IsFinite ∨ x.body layout (.ofLocale l) = "∞") {c : Char}
    (hc : c ∈ (x.body layout (.ofLocale l)).toList) : isMute c = true := by
  rcases h with hx | hinfinite
  · obtain ⟨d, hd⟩ := exists_magnitude hx
    rw [body_of_magnitude hd, DigitBody.toList_write] at hc
    have hwhole : ∀ n ∈ (DigitBody.ofDecimal layout d).whole, n < 10 := fun _ => DigitBody.lt_of_mem_whole
    have hfraction : ∀ n ∈ (DigitBody.ofDecimal layout d).fraction, n < 10 := fun _ =>
      DigitBody.lt_of_mem_fraction
    apply Numerals.isMute_of_mem_chars (l := l)
    rcases List.mem_append.mp hc with hc | hc
    · exact Numerals.whole_subset_chars (Numerals.lawful_ofLocale l) hwhole _ hc
    · rcases DigitBody.fractionText_cases (.ofLocale l) (DigitBody.ofDecimal layout d).fraction with
        ⟨-, ht⟩ | ⟨-, ht⟩
      · rw [ht] at hc
        cases hc
      · rw [ht] at hc
        rcases List.mem_cons.mp hc with rfl | hc
        · exact List.mem_cons_self
        · exact Numerals.digits_subset_chars hfraction hc
  · rw [hinfinite] at hc
    have hone : c = '∞' := List.mem_singleton.mp hc
    rw [hone]
    decide

end Numeric

namespace AffixSign

def spell (symbol : List Char) : Mark AffixSign → List Char
  | .char c => [c]
  | .item .currency => symbol

theorem toList_affixText (currency : Currency) (affix : List (Run AffixSign)) :
    (NumberPattern.affixText currency affix).toList =
      (Run.marks affix).flatMap (spell currency.symbol.toList) := by
  induction affix with
  | nil => rfl
  | cons r rest ih =>
    rw [NumberPattern.affixText] at ih ⊢
    rw [List.map_cons, String.join_cons, String.toList_append, ih]
    cases r with
    | text t => simp [Run.marks, spell, List.flatMap_map]
    | item a =>
      cases a
      rfl

variable {symbol : List Char} {ms : List (Mark AffixSign)}

theorem count_spell {c : Char} (hc : c ∉ symbol) (ms : List (Mark AffixSign)) :
    (ms.flatMap (spell symbol)).count c = ms.count (.char c) := by
  induction ms with
  | nil => rfl
  | cons m ms ih =>
    rw [List.flatMap_cons, List.count_append, ih, List.count_cons]
    cases m with
    | char d => simp [spell, List.count_cons, Nat.add_comm]
    | item a =>
      cases a
      simp [spell, List.count_eq_zero_of_not_mem hc]

theorem occurrences_spell {m : Mark AffixSign} {z : Char} (hz : (spell symbol m).count z = 1)
    (hothers : ∀ k ∈ ms, k ≠ m → z ∉ spell symbol k) (hm : ms.count m ≤ 1) :
    occurrences (spell symbol m) (ms.flatMap (spell symbol)) = ms.count m := by
  have hmem : z ∈ spell symbol m := List.count_pos_iff.mp (by omega)
  have hnone : ∀ ks ⊆ ms, m ∉ ks → z ∉ ks.flatMap (spell symbol) := by
    intro ks hks hk hmem
    obtain ⟨k, hkmem, hzk⟩ := List.mem_flatMap.mp hmem
    exact hothers k (hks hkmem) (fun heq => hk (heq ▸ hkmem)) hzk
  by_cases hin : m ∈ ms
  · obtain ⟨front, back, rfl⟩ := List.append_of_mem hin
    rw [List.count_append, List.count_cons_self] at hm ⊢
    have hfront : m ∉ front := List.count_eq_zero.mp (by omega)
    have hback : m ∉ back := List.count_eq_zero.mp (by omega)
    have hone := Text.occurrences_eq_one hz
      (hnone front (List.subset_append_left _ _) hfront)
      (hnone back (fun k hk => List.mem_append_right _ (List.mem_cons_of_mem _ hk)) hback)
    rw [List.flatMap_append, List.flatMap_cons, ← List.append_assoc, hone,
      List.count_eq_zero_of_not_mem hfront, List.count_eq_zero_of_not_mem hback]
  · rw [List.count_eq_zero_of_not_mem hin]
    exact Text.occurrences_eq_zero hmem (hnone ms (List.Subset.refl ms) hin)

end AffixSign

open AffixSign (spell)

namespace Affixes

/-- Affixes that hold a mark once and the minus sign as often as told, and else only spaces. -/
structure Bears (m : Mark AffixSign) (minus : Nat) (a : Affixes) : Prop where
  once : (Run.marks a.before).count m + (Run.marks a.after).count m = 1
  minus : (Run.marks a.before).count (.char '-') + (Run.marks a.after).count (.char '-') = minus
  others : ∀ k ∈ Run.marks a.before ++ Run.marks a.after, k ≠ m →
    k ∈ [.char '-', .char '\u00a0', .char '\u202f']

instance (m : Mark AffixSign) (minus : Nat) (a : Affixes) : Decidable (a.Bears m minus) :=
  decidable_of_iff (_ ∧ _ ∧ _) ⟨fun ⟨h, h', h''⟩ => ⟨h, h', h''⟩, fun h => ⟨h.once, h.minus, h.others⟩⟩

end Affixes

namespace NumberPattern

structure IsMarked (m : Mark AffixSign) (p : NumberPattern) : Prop where
  positive : p.positive.Bears m 0
  negative : ∀ a, p.negative = some a → a.Bears m 1

def affixesOf (p : NumberPattern) (negative : Bool) : Affixes :=
  if negative then p.negative.getD ⟨.text "-" :: p.positive.before, p.positive.after⟩ else p.positive

theorem frame_eq (p : NumberPattern) (l : Locale) (negative : Bool) : p.frame l negative =
    (affixText (.ofLocale l) (p.affixesOf negative).before,
      affixText (.ofLocale l) (p.affixesOf negative).after) := by
  rw [frame, affixesOf]
  cases negative with
  | false => simp
  | true => cases h : p.negative <;> simp [affixText]

theorem IsMarked.bears {m : Mark AffixSign} {p : NumberPattern} (h : p.IsMarked m) (hm : m ≠ .char '-')
    (negative : Bool) : (p.affixesOf negative).Bears m (if negative then 1 else 0) := by
  rw [affixesOf]
  cases negative with
  | false => exact h.positive
  | true =>
    cases hnegative : p.negative with
    | some a => exact h.negative a hnegative
    | none =>
      obtain ⟨honce, hminus, hothers⟩ := h.positive
      have hmarks : Run.marks (.text "-" :: p.positive.before) = .char '-' :: Run.marks p.positive.before :=
        rfl
      refine ⟨?_, ?_, ?_⟩
      · simp only [if_true, Option.getD_none, hmarks, List.count_cons_of_ne hm.symm]
        exact honce
      · simp only [if_true, Option.getD_none, hmarks, List.count_cons_self]
        omega
      · intro k hk hne
        simp only [if_true, Option.getD_none, hmarks, List.cons_append] at hk
        rcases List.mem_cons.mp hk with rfl | hk
        · exact List.mem_cons_self
        · exact hothers k hk hne

end NumberPattern

namespace Affixes

variable {m : Mark AffixSign} {z : Char} {symbol body : List Char} {minus : Nat} {a : Affixes}

def around (a : Affixes) (body : List Char) : List (Mark AffixSign) :=
  Run.marks a.before ++ body.map Mark.char ++ Run.marks a.after

theorem flatMap_around : (a.around body).flatMap (spell symbol) =
    (Run.marks a.before).flatMap (spell symbol) ++ body ++ (Run.marks a.after).flatMap (spell symbol) := by
  simp [around, List.flatMap_map, spell]

theorem not_mem_spell_of_isMute (hsign : isAmountSign z = true) {c : Char} (hc : isMute c = true) :
    z ∉ spell symbol (.char c) := by
  intro hmem
  have heq : z = c := List.mem_singleton.mp hmem
  rw [isMute, ← heq, hsign] at hc
  simp at hc

theorem not_mem_spell (h : a.Bears m minus) (hsign : isAmountSign z = true)
    (hbody : ∀ c ∈ body, isMute c = true) : ∀ k ∈ a.around body, k ≠ m → z ∉ spell symbol k := by
  intro k hk hne
  have hk' : k ∈ Run.marks a.before ++ Run.marks a.after ∨ k ∈ body.map Mark.char := by
    simp only [around, List.mem_append] at hk ⊢
    tauto
  rcases hk' with hk | hk
  · intro hmem
    have hpads := h.others k hk hne
    simp only [List.mem_cons, List.not_mem_nil, or_false] at hpads
    rcases hpads with rfl | rfl | rfl <;>
      · rw [List.mem_singleton.mp hmem] at hsign
        revert hsign
        decide
  · obtain ⟨c, hc, rfl⟩ := List.mem_map.mp hk
    exact not_mem_spell_of_isMute hsign (hbody c hc)

theorem count_around (h : a.Bears m minus) (hz : z ∈ spell symbol m) (hsign : isAmountSign z = true)
    (hbody : ∀ c ∈ body, isMute c = true) :
    (a.around body).count m = 1 ∧ (a.around body).count (Mark.char '-') = minus := by
  have hmark : (body.map Mark.char).count m = 0 := by
    apply List.count_eq_zero_of_not_mem
    intro hmem
    obtain ⟨c, hc, rfl⟩ := List.mem_map.mp hmem
    exact not_mem_spell_of_isMute hsign (hbody c hc) hz
  have hminus : (body.map Mark.char).count (Mark.char (α := AffixSign) '-') = 0 := by
    apply List.count_eq_zero_of_not_mem
    intro hmem
    obtain ⟨c, hc, heq⟩ := List.mem_map.mp hmem
    cases heq
    exact absurd (hbody '-' hc) (by decide)
  have honce := h.once
  have hminuses := h.minus
  simp only [around, List.count_append, hmark, hminus]
  omega

end Affixes

/-- Digits between two affixes that hold a sign once in all, and a minus sign exactly below zero. -/
structure IsAmount (sign : List Char) (x : Numeric) (text before body after : List Char) : Prop where
  split : text = before ++ body ++ after
  one_affix : occurrences sign before + occurrences sign after = 1
  once : occurrences sign text = 1
  minus : x.IsBelowZero → text.count '-' = 1
  no_minus : ¬x.IsBelowZero → text.count '-' = 0

variable {m : Mark AffixSign} {z : Char} {x : Numeric} {symbol : List Char}

theorem isAmount_of_bears {a : Affixes} {body : List Char} (h : a.Bears m (if x.isNegative then 1 else 0))
    (hz : (spell symbol m).count z = 1) (hsign : isAmountSign z = true) (hsymbol : '-' ∉ symbol)
    (hbody : ∀ c ∈ body, isMute c = true) :
    IsAmount (spell symbol m) x ((a.around body).flatMap (spell symbol))
      ((Run.marks a.before).flatMap (spell symbol)) body ((Run.marks a.after).flatMap (spell symbol)) := by
  have hmem : z ∈ spell symbol m := List.count_pos_iff.mp (Nat.lt_of_lt_of_eq Nat.one_pos hz.symm)
  have hothers : ∀ k ∈ a.around body, k ≠ m → z ∉ spell symbol k :=
    Affixes.not_mem_spell h hsign hbody
  obtain ⟨hmark, hminus⟩ := Affixes.count_around h hmem hsign hbody
  have honce := h.once
  have hin : ∀ ks ⊆ a.around body, ks.count m ≤ 1 →
      occurrences (spell symbol m) (ks.flatMap (spell symbol)) = ks.count m :=
    fun ks hks hcount => AffixSign.occurrences_spell hz (fun k hk => hothers k (hks hk)) hcount
  have hbefore := hin (Run.marks a.before)
    (List.subset_append_of_subset_left _ (List.subset_append_left _ _)) (by omega)
  have hafter := hin (Run.marks a.after) (List.subset_append_right _ _) (by omega)
  have hall := hin (a.around body) (List.Subset.refl _) (by omega)
  have hcount := AffixSign.count_spell hsymbol (a.around body)
  have hbelow := Numeric.isNegative_iff x
  refine ⟨Affixes.flatMap_around, by omega, by omega, ?_, ?_⟩
  · intro hlt
    rw [hcount, hminus, if_pos (hbelow.mpr hlt)]
  · intro hnot
    rw [hcount, hminus, if_neg (mt hbelow.mp hnot)]

namespace NumberPattern

variable {p : NumberPattern} {l : Locale}

theorem toList_write (p : NumberPattern) (l : Locale) (x : Numeric) : (p.write l x).toList =
    ((p.affixesOf x.isNegative).around
      ((x.scale p.scale.factor).body p.layout (.ofLocale l)).toList).flatMap
        (spell (Currency.ofLocale l).symbol.toList) := by
  rw [write_eq, Numeric.isNegative_scale, frame_eq, String.toList_append, String.toList_append,
    AffixSign.toList_affixText, AffixSign.toList_affixText, Affixes.flatMap_around]

theorem isAmount_write (h : p.IsMarked m) (hm : m ≠ .char '-') (hx : x.IsFinite)
    (hz : (spell (Currency.ofLocale l).symbol.toList m).count z = 1) (hsign : isAmountSign z = true)
    (hsymbol : '-' ∉ (Currency.ofLocale l).symbol.toList) :
    ∃ before after, IsAmount (spell (Currency.ofLocale l).symbol.toList m) x (p.write l x).toList before
      ((x.scale p.scale.factor).body p.layout (.ofLocale l)).toList after := by
  have hbody : ∀ c ∈ ((x.scale p.scale.factor).body p.layout (.ofLocale l)).toList, isMute c = true :=
    fun _ => Numeric.isMute_of_mem_body (Numeric.body_scale hx p.layout (.ofLocale l))
  rw [toList_write]
  exact ⟨_, _, isAmount_of_bears (h.bears hm x.isNegative) hz hsign hsymbol hbody⟩

end NumberPattern

end MessageCatalog
