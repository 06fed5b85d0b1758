import MessageCatalog.Proofs.Binary64.Order

namespace MessageCatalog

theorem nearestEven_pos {num den : Nat} (hden : 0 < den) (h : den ≤ num) : 0 < nearestEven num den := by
  have hdiv : 0 < num / den := Nat.div_pos h hden
  simp only [nearestEven]
  split <;> omega

theorem BinaryFormat.nearestRank_pos (f : BinaryFormat) {num den : Nat} (hden : 0 < den)
    (h : den ≤ num * 2 ^ f.unitPlaces) (hmost : 0 < f.infinityRank) : 0 < f.nearestRank num den := by
  unfold nearestRank
  rw [Nat.lt_min]
  refine ⟨?_, hmost⟩
  by_cases hshift : Nat.log2 (num * 2 ^ f.unitPlaces / den) - f.fractionBits = 0
  · rw [hshift, Nat.zero_mul, Nat.zero_add, Nat.pow_zero, Nat.mul_one]
    exact nearestEven_pos hden h
  · have hpos := Nat.mul_pos (Nat.pos_of_ne_zero hshift) (Nat.two_pow_pos f.fractionBits)
    omega

theorem BinaryFormat.nearestRank_zero (f : BinaryFormat) (den : Nat) : f.nearestRank 0 den = 0 := by
  simp [nearestRank, nearestEven]

theorem nearestEven_le (num den : Nat) : nearestEven num den ≤ num / den + 1 := by
  simp only [nearestEven]
  split <;> omega

theorem div_two_pow_log2_lt (q bits : Nat) : q / 2 ^ (Nat.log2 q - bits) < 2 ^ (bits + 1) := by
  apply Nat.div_lt_of_lt_mul
  rw [← Nat.pow_add]
  calc
    q < 2 ^ (Nat.log2 q + 1) := Nat.lt_log2_self
    _ ≤ 2 ^ (Nat.log2 q - bits + (bits + 1)) := Nat.pow_le_pow_right Nat.two_pos (by omega)

theorem BinaryFormat.nearestRank_le (f : BinaryFormat) {num den b : Nat}
    (h : num * 2 ^ f.unitPlaces < den * 2 ^ b) (hb : f.fractionBits < b) :
    f.nearestRank num den ≤ (b + 1 - f.fractionBits) * 2 ^ f.fractionBits := by
  have hq : num * 2 ^ f.unitPlaces / den < 2 ^ b := Nat.div_lt_of_lt_mul h
  simp only [nearestRank]
  generalize hquotient : num * 2 ^ f.unitPlaces / den = q at hq
  have hshift : Nat.log2 q - f.fractionBits ≤ b - 1 - f.fractionBits := by
    by_cases hzero : q = 0
    · simp [hzero]
    · have hlog := (Nat.log2_lt hzero).mpr hq
      omega
  have hnearest : nearestEven (num * 2 ^ f.unitPlaces) (den * 2 ^ (Nat.log2 q - f.fractionBits)) ≤
      2 * 2 ^ f.fractionBits := by
    apply (nearestEven_le _ _).trans
    rw [← Nat.div_div_eq_div_mul, hquotient, ← Nat.pow_succ']
    exact div_two_pow_log2_lt q f.fractionBits
  calc
    min _ f.infinityRank
      ≤ (Nat.log2 q - f.fractionBits) * 2 ^ f.fractionBits + 2 * 2 ^ f.fractionBits :=
        (Nat.min_le_left _ _).trans (Nat.add_le_add_left hnearest _)
    _ = (Nat.log2 q - f.fractionBits + 2) * 2 ^ f.fractionBits := (Nat.add_mul _ _ _).symm
    _ ≤ (b + 1 - f.fractionBits) * 2 ^ f.fractionBits := Nat.mul_le_mul_right _ (by omega)

theorem BinaryFormat.nearestRank_nat_le (f : BinaryFormat) {n b : Nat} (h : n < 2 ^ b)
    (hb : f.fractionBits < b + f.unitPlaces) :
    f.nearestRank n 1 ≤ (b + f.unitPlaces + 1 - f.fractionBits) * 2 ^ f.fractionBits := by
  apply f.nearestRank_le _ hb
  rw [Nat.one_mul, Nat.pow_add]
  exact Nat.mul_lt_mul_of_pos_right h (Nat.two_pow_pos _)

theorem BinaryFormat.nearestRank_units_le (f : BinaryFormat) {a b c d : Nat} (ha : a < 2 ^ b)
    (hc : c < 2 ^ d) (hb : f.fractionBits < b + d) :
    f.nearestRank (a * c) (2 ^ f.unitPlaces) ≤ (b + d + 1 - f.fractionBits) * 2 ^ f.fractionBits := by
  apply f.nearestRank_le _ hb
  rw [Nat.mul_comm, Nat.pow_add]
  exact Nat.mul_lt_mul_of_pos_left (Nat.mul_lt_mul'' ha hc) (Nat.two_pow_pos _)

theorem BinaryFormat.units_lt (f : BinaryFormat) (rank : Nat) :
    f.units rank < 2 ^ (f.fractionBits + 1 + rank / 2 ^ f.fractionBits) := by
  have hpos := Nat.two_pow_pos f.fractionBits
  have hexponent := Nat.zero_le (rank / 2 ^ f.fractionBits)
  simp only [units]
  split
  case isTrue hsmall =>
    apply hsmall.trans_le
    exact Nat.pow_le_pow_right Nat.two_pos (by omega)
  case isFalse =>
    have hfraction := Nat.mod_lt rank hpos
    calc
      (2 ^ f.fractionBits + rank % 2 ^ f.fractionBits) * 2 ^ (rank / 2 ^ f.fractionBits - 1)
        < 2 ^ (f.fractionBits + 1) * 2 ^ (rank / 2 ^ f.fractionBits - 1) := by
          apply Nat.mul_lt_mul_of_pos_right _ (Nat.two_pow_pos _)
          rw [Nat.pow_succ]
          omega
      _ ≤ 2 ^ (f.fractionBits + 1 + rank / 2 ^ f.fractionBits) := by
          rw [← Nat.pow_add]
          exact Nat.pow_le_pow_right Nat.two_pos (by omega)

namespace Binary64

theorem isNegative_ofRank (negative : Bool) (rank : Nat) :
    (ofRank negative rank).isNegative = (negative && decide (0 < rank)) := by
  have hmost : 0 < infinityRank := by decide
  cases negative with
  | false => rfl
  | true =>
    rw [ofRank, isNegative, Bool.true_and, decide_eq_decide]
    exact ⟨fun h => (Nat.lt_min.mp h).1, fun h => Nat.lt_min.mpr ⟨h, hmost⟩⟩

theorem isNegative_ofInt (n : Int) : (ofInt n).isNegative = decide (n < 0) := by
  rw [ofInt, isNegative_ofRank]
  by_cases hn : n < 0
  · have hone : 1 ≤ n.natAbs * 2 ^ BinaryFormat.double.unitPlaces :=
      Nat.mul_pos (by omega) (Nat.two_pow_pos _)
    have hpos := BinaryFormat.double.nearestRank_pos Nat.one_pos hone (by decide)
    simp [hn, hpos]
  · simp [hn]

theorem units_pos {rank : Nat} (h : 0 < rank) : 0 < units rank :=
  Nat.zero_lt_of_lt (units_lt_units_iff.mpr h)

theorem isNegative_scale (x : Binary64) {k : Nat} (hk : 0 < k) : (x.scale k).isNegative = x.isNegative := by
  cases x with
  | nan => rfl
  | signed negative rank =>
    rw [scale]
    split
    case isTrue => rfl
    case isFalse =>
      rw [isNegative_ofRank]
      cases negative with
      | false => rfl
      | true =>
        rw [Bool.true_and, isNegative, decide_eq_decide]
        constructor
        · intro h
          by_contra hzero
          have hrank : rank.val = 0 := by omega
          rw [hrank, units_zero, Nat.zero_mul, BinaryFormat.nearestRank_zero] at h
          exact absurd h (Nat.lt_irrefl 0)
        · intro h
          have hplaces : BinaryFormat.double.unitPlaces = 1074 := rfl
          apply BinaryFormat.nearestRank_pos _ (Nat.two_pow_pos 1074) _ (by decide)
          rw [hplaces]
          exact Nat.le_mul_of_pos_left _ (Nat.mul_pos (units_pos h) hk)

theorem isFinite_ofRank {negative : Bool} {rank : Nat} (h : rank < infinityRank) :
    (ofRank negative rank).isFinite = true := by
  rw [ofRank, isFinite, decide_eq_true_eq]
  exact (Nat.min_le_left _ _).trans_lt h

theorem val_signed_lt {negative : Bool} {rank : Nat} (h : rank < infinityRank) :
    ofRank negative rank = signed negative ⟨rank, by rw [infinityRank] at h; omega⟩ := by
  simp [ofRank, Nat.min_eq_left h.le]

theorem nearestRank_word_le {n : Nat} (h : n < 2 ^ 64) :
    BinaryFormat.double.nearestRank n 1 ≤ (64 + 1074 + 1 - 52) * 2 ^ 52 :=
  BinaryFormat.double.nearestRank_nat_le h (by decide)

theorem scale_ofInt {n : Int} (h : n.natAbs < 2 ^ 64) (k : Nat) : (ofInt n).scale k =
    ofRank (n < 0) (BinaryFormat.double.nearestRank
      (units (BinaryFormat.double.nearestRank n.natAbs 1) * k) (2 ^ 1074)) := by
  have hmost : (64 + 1074 + 1 - 52) * 2 ^ 52 < infinityRank := by decide
  have hlt := (nearestRank_word_le h).trans_lt hmost
  rw [ofInt, val_signed_lt hlt, scale, if_neg hlt.ne]

theorem scaledRank_lt {n k : Nat} (h : n < 2 ^ 64) (hk : k < 2 ^ 10) : BinaryFormat.double.nearestRank
    (units (BinaryFormat.double.nearestRank n 1) * k) (2 ^ 1074) < infinityRank := by
  have hplaces : BinaryFormat.double.unitPlaces = 1074 := rfl
  have hbits : BinaryFormat.double.fractionBits = 52 := rfl
  have hrank := nearestRank_word_le h
  have hexponent : 52 + 1 + BinaryFormat.double.nearestRank n 1 / 2 ^ 52 ≤ 1140 := by omega
  have hunits := (BinaryFormat.double.units_lt (BinaryFormat.double.nearestRank n 1)).trans_le
    (Nat.pow_le_pow_right Nat.two_pos hexponent)
  have hscaled := BinaryFormat.double.nearestRank_units_le hunits hk (by decide)
  rw [hplaces, hbits] at hscaled
  have hmost : (1140 + 10 + 1 - 52) * 2 ^ 52 < infinityRank := by decide
  exact hscaled.trans_lt hmost

theorem isFinite_scale_ofInt {n : Int} {k : Nat} (h : n.natAbs < 2 ^ 64) (hk : k < 2 ^ 10) :
    ((ofInt n).scale k).isFinite = true := by
  rw [scale_ofInt h]
  exact isFinite_ofRank (scaledRank_lt h hk)

end Binary64

end MessageCatalog
