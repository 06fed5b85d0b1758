import Mathlib.Data.List.TakeWhile
import MessageCatalog.Binary64.Literal
import MessageCatalog.Proofs.Binary64.Nearest
import MessageCatalog.Proofs.Text.Numeral

namespace MessageCatalog

namespace BinaryLiteral

variable {cs : List Char}

theorem toLower_of_isDigit {c : Char} (h : c.isDigit = true) : c.toLower = c := by
  rw [Char.isDigit, Bool.and_eq_true, decide_eq_true_eq, decide_eq_true_eq] at h
  have hle : c.val ≤ 57 := h.2
  delta Char.toLower
  rw [dif_neg]
  intro hupper
  have hge : 65 ≤ c.val := hupper.1
  exact absurd (UInt32.le_trans hge hle) (by decide)

theorem decimal?_of_digits (hne : cs ≠ []) (h : ∀ c ∈ cs, c.isDigit = true) :
    decimal? cs = some ⟨Text.value (cs.map Text.digitValue), 0⟩ := by
  have hempty : cs.isEmpty = false := by rwa [List.isEmpty_eq_false_iff]
  have hspan : cs.span Char.isDigit = (cs, []) := by
    rw [List.span_eq_takeWhile_dropWhile, List.takeWhile_eq_self_iff.mpr h, List.dropWhile_eq_nil_iff.mpr h]
  simp only [decimal?, hspan, fraction, List.append_nil, hempty, Bool.false_eq_true, if_false]
  rfl

theorem magnitude?_of_digits (hne : cs ≠ []) (h : ∀ c ∈ cs, c.isDigit = true) (negative : Bool) :
    magnitude? negative cs = some (.decimal negative ⟨Text.value (cs.map Text.digitValue), 0⟩) := by
  have hlower : cs.map Char.toLower = cs := by
    conv => rhs; rw [← List.map_id cs]
    exact List.map_congr_left fun c hc => toLower_of_isDigit (h c hc)
  -- digits are none of the words
  have hword (word : String) (hw : word.toList.all Char.isDigit = false) : String.ofList cs ≠ word := by
    rintro rfl
    rw [String.toList_ofList, List.all_eq_true.mpr h] at hw
    cases hw
  simp only [magnitude?, hlower, hword "inf" rfl, hword "infinity" rfl, hword "nan" rfl, or_self, if_false,
    decimal?_of_digits hne h]
  rfl

theorem read?_of_digits (h : ∀ c ∈ cs, c.isDigit = true) : read? cs = magnitude? false cs := by
  unfold read?
  split
  · have := h '-' List.mem_cons_self
    contradiction
  · have := h '+' List.mem_cons_self
    contradiction
  · rfl

theorem read?_intText (n : ℤ) :
    read? (Text.intText n).toList = some (.decimal (n < 0) ⟨n.natAbs, 0⟩) := by
  have hdigits : ∀ c ∈ Text.numeral 1 n.natAbs, c.isDigit = true := fun c => Text.isDigit_of_mem_numeral
  have hmagnitude := magnitude?_of_digits (Text.numeral_ne_nil 1 n.natAbs Nat.one_pos) hdigits
  rw [Text.value_numeral] at hmagnitude
  rw [Text.intText, Text.natText]
  split
  case isTrue hn =>
    rw [String.toList_append, String.toList_ofList, String.toList_ofList, List.singleton_append,
      decide_eq_true hn, read?, hmagnitude]
  case isFalse hn =>
    rw [String.toList_ofList, decide_eq_false hn, read?_of_digits hdigits, hmagnitude]

end BinaryLiteral

namespace BinaryFormat

variable (f : BinaryFormat) {m num den rank : ℕ}

theorem exists_units (hm : m ≤ 2 * 2 ^ f.fractionBits) (shift : ℕ) :
    ∃ rank ≤ (shift + 2) * 2 ^ f.fractionBits, f.units rank = m * 2 ^ shift := by
  induction shift generalizing m with
  | zero =>
    have hunits : f.units (0 * 2 ^ f.fractionBits + m) = m * 2 ^ 0 := f.units_shift (.inl rfl) hm
    rw [Nat.zero_mul, Nat.zero_add] at hunits
    exact ⟨m, by rwa [Nat.zero_add], hunits⟩
  | succ shift ih =>
    by_cases hsmall : m < 2 ^ f.fractionBits
    · obtain ⟨rank, hrank, hunits⟩ := ih (m := 2 * m) (by omega)
      refine ⟨rank, hrank.trans (Nat.mul_le_mul_right _ (by omega)), ?_⟩
      rw [hunits, Nat.pow_succ]
      ring
    · refine ⟨(shift + 1) * 2 ^ f.fractionBits + m, ?_, f.units_shift (.inr (not_lt.mp hsmall)) hm⟩
      have hsum : (shift + 1 + 2) * 2 ^ f.fractionBits =
          (shift + 1) * 2 ^ f.fractionBits + 2 * 2 ^ f.fractionBits := Nat.add_mul _ _ _
      omega

theorem nearestRank_eq (hbits : 0 < f.fractionBits) (hden : 0 < den) (hmost : rank ≤ f.infinityRank)
    (h : f.units rank * den = num * 2 ^ f.unitPlaces) : f.nearestRank num den = rank := by
  have hplaces : (2 : ℚ) ^ f.unitPlaces ≠ 0 := by positivity
  have hden' : (den : ℚ) ≠ 0 := by positivity
  have hexact : (num / den : ℚ) = f.magnitude rank := by
    rw [magnitude, div_eq_div_iff hden' hplaces]
    exact_mod_cast h.symm
  have hnearest : f.IsNearest (num / den) rank := by
    rw [hexact]
    refine ⟨hmost, fun other _ => ?_, fun other _ hne heq => ?_⟩
    · rw [sub_self, abs_zero]
      exact abs_nonneg _
    · rw [sub_self, abs_zero, eq_comm, abs_eq_zero, sub_eq_zero] at heq
      rcases Nat.lt_or_gt_of_ne hne with hlt | hlt
      · exact absurd heq (f.magnitude_lt hlt).ne'
      · exact absurd heq (f.magnitude_lt hlt).ne
  exact ((f.isNearest_iff_eq_nearestRank hbits hden).mp hnearest).symm

theorem rankOfDecimal_nat {n : ℕ} (hn : n ≤ 2 ^ 53) :
    f.rankOfDecimal ⟨n, 0⟩ = f.nearestRank n 1 := by
  by_cases hzero : n = 0
  · rw [hzero, nearestRank_zero, rankOfDecimal]
    exact if_pos (Or.inl rfl)
  · have hlog : Nat.log2 n < 54 := (Nat.log2_lt hzero).mpr (hn.trans_lt (by decide))
    have hsmall : ¬(n = 0 ∨ ((Nat.log2 n : ℕ) : ℤ) / 3 + 1 + 0 < -330) := by omega
    have hlarge : ¬310 < ((Nat.log2 n : ℕ) : ℤ) / 4 + 0 := by omega
    rw [rankOfDecimal]
    simp only [hsmall, hlarge, if_false, le_refl, if_true]
    rw [Int.toNat_zero, Nat.pow_zero, Nat.mul_one]

end BinaryFormat

namespace Binary64

variable {k m n : ℤ}

theorem value?_ofRank {rank shift : ℕ} (hmost : rank < infinityRank)
    (hunits : units rank = n.natAbs * 2 ^ shift) : (ofRank (n < 0) rank).value? = some (n * 2 ^ shift) := by
  rw [val_signed_lt hmost, value?, hunits]
  push_cast
  by_cases hn : n < 0
  · rw [if_pos (by simpa using hn), abs_of_neg hn, neg_mul, neg_neg]
  · rw [if_neg (by simpa using hn), abs_of_nonneg (not_lt.mp hn)]

theorem exists_rank (hn : n.natAbs ≤ 2 ^ 53) {shift : ℕ} (hshift : shift ≤ 1074) :
    ∃ rank < infinityRank, units rank = n.natAbs * 2 ^ shift := by
  have hbits : BinaryFormat.double.fractionBits = 52 := rfl
  have hmost : infinityRank = 2047 * 2 ^ 52 := rfl
  obtain ⟨rank, hrank, hunits⟩ := BinaryFormat.double.exists_units (m := n.natAbs) hn shift
  rw [hbits] at hrank
  exact ⟨rank, by omega, hunits⟩

theorem value?_ofInt (hn : n.natAbs ≤ 2 ^ 53) : (ofInt n).value? = some (n * 2 ^ 1074) := by
  have hplaces : BinaryFormat.double.unitPlaces = 1074 := rfl
  obtain ⟨rank, hmost, hunits⟩ := exists_rank hn le_rfl
  have hnearest : BinaryFormat.double.nearestRank n.natAbs 1 = rank := by
    apply BinaryFormat.double.nearestRank_eq (by decide) Nat.one_pos hmost.le
    rw [hplaces, Nat.mul_one]
    exact hunits
  rw [ofInt, hnearest, value?_ofRank hmost hunits]

theorem ofInt_ne_nan (n : ℤ) : ofInt n ≠ nan :=
  nofun

theorem less_ofInt_iff (hm : m.natAbs ≤ 2 ^ 53) (hn : n.natAbs ≤ 2 ^ 53) :
    Less (ofInt m) (ofInt n) ↔ m < n := by
  have hpos : (0 : ℤ) < 2 ^ 1074 := by positivity
  simp only [Less, value?_ofInt hm, value?_ofInt hn, Option.some.injEq, exists_and_left, exists_eq_left',
    mul_lt_mul_iff_left₀ hpos]

theorem atMost_ofInt_iff (hm : m.natAbs ≤ 2 ^ 53) (hn : n.natAbs ≤ 2 ^ 53) :
    AtMost (ofInt m) (ofInt n) ↔ m ≤ n := by
  rw [← not_lt, ← less_ofInt_iff hn hm, ← not_atMost_iff (ofInt_ne_nan m) (ofInt_ne_nan n), not_not]

theorem exists_less_ofInt (hk : k.natAbs < 2 ^ 52) : ∃ x, Less (ofInt k) x ∧
    ∀ n : ℤ, n.natAbs ≤ 2 ^ 53 → k < n → Less x (ofInt n) := by
  have hhalf : (2 * k + 1).natAbs ≤ 2 ^ 53 := by omega
  obtain ⟨rank, hmost, hunits⟩ := exists_rank hhalf (show 1073 ≤ 1074 by decide)
  have hvalue := value?_ofRank hmost hunits
  have hpos : (0 : ℤ) < 2 ^ 1073 := by positivity
  have htwice : ∀ n : ℤ, n * 2 ^ 1074 = 2 * n * 2 ^ 1073 := by
    intro n
    rw [pow_succ' 2 1073, ← mul_assoc, mul_comm n 2]
  refine ⟨_, ⟨_, _, value?_ofInt (by omega), hvalue, ?_⟩, fun n hn hkn => ⟨_, _, hvalue, value?_ofInt hn, ?_⟩⟩
  · rw [htwice, mul_lt_mul_iff_left₀ hpos]
    omega
  · rw [htwice, mul_lt_mul_iff_left₀ hpos]
    omega

theorem ofInt_ne_infinity (hk : k.natAbs < 2 ^ 52) : ofInt k ≠ infinity false := by
  obtain ⟨x, hkx, -⟩ := exists_less_ofInt hk
  exact fun h => not_infinity_less x (h ▸ hkx)

theorem less_next_ofInt (hk : k.natAbs < 2 ^ 52) : Less (ofInt k) (ofInt k).next :=
  less_next (ofInt_ne_nan k) (ofInt_ne_infinity hk)

theorem next_ofInt_less (hk : k.natAbs < 2 ^ 52) (hn : n.natAbs ≤ 2 ^ 53) (h : k < n) :
    Less (ofInt k).next (ofInt n) := by
  obtain ⟨x, hkx, hless⟩ := exists_less_ofInt hk
  have hnext := (next_atMost_iff (ofInt_ne_nan k) (ofInt_ne_infinity hk)).mpr hkx
  exact hnext.trans_less (hless n hn h)

theorem read?_intText (hn : n.natAbs ≤ 2 ^ 53) : read? (Text.intText n).toList = some (ofInt n) := by
  rw [read?, BinaryLiteral.read?_intText, Option.map_some, BinaryLiteral.toDouble,
    BinaryFormat.rankOfDecimal_nat _ hn, ofInt]

end Binary64

end MessageCatalog
