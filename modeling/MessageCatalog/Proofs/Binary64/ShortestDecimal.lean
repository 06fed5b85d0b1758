import MessageCatalog.Proofs.Binary64.DecimalGrids
import MessageCatalog.Proofs.Binary64.Nearest

namespace MessageCatalog.Binary64

namespace Interval

variable {x : ℚ} {rank : ℕ}

theorem isProper_ofRank (hrank : 0 < rank) : (ofRank rank).IsProper := by
  have hbelow : units (rank - 1) < units rank := BinaryFormat.double.units_lt_units (by omega)
  have habove : units rank < units (rank + 1) := BinaryFormat.double.units_lt_units rank.lt_succ_self
  constructor <;> simp only [ofRank] <;> omega

theorem wide_ofRank (hrank : 0 < rank) :
    (ofRank rank).mid + 10 ^ 16 * (ofRank rank).low < 10 ^ 16 * (ofRank rank).high := by
  obtain ⟨before, rfl⟩ := Nat.exists_eq_succ_of_ne_zero hrank.ne'
  obtain ⟨gap, k, hbelow, hmid, hk⟩ := BinaryFormat.double.exists_gap before
  obtain ⟨gap', k', hmid', habove, hk'⟩ := BinaryFormat.double.exists_gap (before + 1)
  have hlt := BinaryFormat.double.units_lt_units before.lt_succ_self
  have hsteps : 2 * 2 ^ BinaryFormat.double.fractionBits = 2 ^ 53 := rfl
  rw [hsteps] at hk hk'
  have hgap : BinaryFormat.double.units (before + 1) ≤ 2 ^ 53 * gap :=
    hmid.trans_le (Nat.mul_le_mul_right gap hk)
  have hgap' : BinaryFormat.double.units (before + 1) ≤ 2 ^ 53 * gap' :=
    hmid'.trans_le (Nat.mul_le_mul_right gap' hk'.le)
  rw [Nat.add_mul, ← hbelow, Nat.one_mul] at hmid
  rw [Nat.add_mul, ← hmid', Nat.one_mul] at habove
  simp only [ofRank, units, Nat.succ_eq_add_one, Nat.add_sub_cancel, habove] at hlt ⊢
  omega

theorem closed_ofRank : (ofRank rank).closed = true ↔ Even rank := by
  rw [Nat.even_iff]
  exact beq_iff_eq

theorem from_ofRank_iff (hrank : 0 < rank) : (ofRank rank).From x ↔ ∀ other < rank,
    (BinaryFormat.double.units other + BinaryFormat.double.units rank : ℚ) ≤ x ∧
      ((BinaryFormat.double.units other + BinaryFormat.double.units rank : ℚ) = x → Even rank) := by
  have hlow : ((ofRank rank).low : ℚ) =
      BinaryFormat.double.units (rank - 1) + BinaryFormat.double.units rank := Nat.cast_add _ _
  rw [From, hlow, closed_ofRank]
  constructor
  · intro h other hother
    have hle : (BinaryFormat.double.units other : ℚ) ≤ BinaryFormat.double.units (rank - 1) := by
      exact_mod_cast BinaryFormat.double.strictMono_units.monotone (Nat.le_sub_one_of_lt hother)
    rcases h with hlt | ⟨heven, heq⟩
    · exact ⟨by linarith, fun heq => absurd heq (by linarith)⟩
    · exact ⟨by linarith, fun _ => heven⟩
  · intro h
    obtain ⟨hle, heven⟩ := h (rank - 1) (by omega)
    rcases hle.lt_or_eq with hlt | heq
    · exact .inl hlt
    · exact .inr ⟨heven heq, heq⟩

theorem upTo_ofRank_iff (hmost : rank < infinityRank) : (ofRank rank).UpTo x ↔
    ∀ other ≤ infinityRank, rank < other →
      x ≤ (BinaryFormat.double.units rank + BinaryFormat.double.units other : ℚ) ∧
      (x = (BinaryFormat.double.units rank + BinaryFormat.double.units other : ℚ) → Even rank) := by
  have hhigh : ((ofRank rank).high : ℚ) =
      BinaryFormat.double.units rank + BinaryFormat.double.units (rank + 1) := Nat.cast_add _ _
  rw [UpTo, hhigh, closed_ofRank]
  constructor
  · intro h other _ hother
    have hle : (BinaryFormat.double.units (rank + 1) : ℚ) ≤ BinaryFormat.double.units other := by
      exact_mod_cast BinaryFormat.double.strictMono_units.monotone hother
    rcases h with hlt | ⟨heven, heq⟩
    · exact ⟨by linarith, fun heq => absurd heq (by linarith)⟩
    · exact ⟨by linarith, fun _ => heven⟩
  · intro h
    obtain ⟨hle, heven⟩ := h (rank + 1) hmost rank.lt_succ_self
    rcases hle.lt_or_eq with hlt | heq
    · exact .inl hlt
    · exact .inr ⟨heven heq, heq⟩

theorem spot_eq (d : Decimal) : spot d = 2 * (d.value * 2 ^ BinaryFormat.double.unitPlaces) := by
  have hscale : ∀ places : ℕ, (2 : ℚ) ^ (places + 1) = 2 * 2 ^ places := fun places => pow_succ' 2 places
  have hplaces : BinaryFormat.double.unitPlaces = 1074 := rfl
  rw [spot, gridStep, hscale 1074, Decimal.value, hplaces]
  generalize (2 : ℚ) ^ 1074 = scale
  ring

theorem has_ofRank_iff (hrank : 0 < rank) (hmost : rank < infinityRank) {d : Decimal} :
    (ofRank rank).Has (spot d) ↔ BinaryFormat.double.IsNearest d.value rank := by
  rw [BinaryFormat.double.isNearest_iff hmost.le, ← spot_eq, ← from_ofRank_iff hrank,
    Has, upTo_ofRank_iff hmost]
  rfl

theorem mid_ofRank (rank : ℕ) : ((ofRank rank).mid : ℚ) =
    2 * (BinaryFormat.double.magnitude rank * 2 ^ BinaryFormat.double.unitPlaces) := by
  have hscale : (2 : ℚ) ^ BinaryFormat.double.unitPlaces ≠ 0 := (pow_pos two_pos _).ne'
  rw [BinaryFormat.magnitude, div_mul_cancel₀ _ hscale]
  exact Nat.cast_mul 2 _

theorem abs_mid_sub_spot (rank : ℕ) (d : Decimal) : |(ofRank rank).mid - spot d| =
    2 * (|BinaryFormat.double.magnitude rank - d.value| * 2 ^ BinaryFormat.double.unitPlaces) := by
  have hscale : (0 : ℚ) < 2 ^ BinaryFormat.double.unitPlaces := pow_pos two_pos _
  rw [mid_ofRank, spot_eq, ← mul_sub, ← sub_mul, abs_mul, abs_mul, abs_two, abs_of_pos hscale]

theorem isFirst_ofRank (hrank : 0 < rank) (tie : TieRule) :
    ∃ t < 17, (ofRank rank).IsFirst ((ofRank rank).firstPlace - 1) t (shortest tie rank) ∧
      gridStep ((ofRank rank).firstPlace - 1) ≤ (ofRank rank).mid ∧
      (ofRank rank).mid < gridStep (ofRank rank).firstPlace := by
  have hmost : 2 ^ 1075 ≤ (ofRank rank).mid * 10 ^ 340 := by
    have hleast : 2 ^ 1075 ≤ 10 ^ 340 := by decide +kernel
    have hpos : 0 < (ofRank rank).mid := Nat.mul_pos Nat.two_pos (units_pos hrank)
    exact hleast.trans (Nat.le_mul_of_pos_left _ hpos)
  obtain ⟨t, ht, hfirst⟩ := isFirst_search (isProper_ofRank hrank) hmost (wide_ofRank hrank) tie
  rw [shortest, if_neg hrank.ne']
  exact ⟨t, ht, hfirst, firstPlace_spec hmost⟩

end Interval

/-- The decimal is rounded to the double of the rank. None with fewer digits is, and none with no more
digits that is lies nearer to the double. -/
structure IsShortest (rank : ℕ) (d : Decimal) : Prop where
  reads : BinaryFormat.double.IsNearest d.value rank
  fewest : ∀ other : Decimal, BinaryFormat.double.IsNearest other.value rank → d.length ≤ other.length
  nearest : ∀ other : Decimal, BinaryFormat.double.IsNearest other.value rank → other.length ≤ d.length →
    |BinaryFormat.double.magnitude rank - d.value| ≤ |BinaryFormat.double.magnitude rank - other.value|

variable {rank : ℕ}

theorem isShortest_shortest (hrank : 0 < rank) (hmost : rank < infinityRank) (tie : TieRule) :
    IsShortest rank (shortest tie rank) := by
  have hi := Interval.isProper_ofRank hrank
  have hhas {d : Decimal} (hd : BinaryFormat.double.IsNearest d.value rank) :
      (Interval.ofRank rank).Has (Interval.spot d) := (Interval.has_ofRank_iff hrank hmost).mpr hd
  obtain ⟨t, -, hfirst, hlow, -⟩ := Interval.isFirst_ofRank hrank tie
  refine ⟨?_, fun other hother => ?_, fun other hother hlength => ?_⟩
  · exact (Interval.has_ofRank_iff hrank hmost).mp hfirst.has
  · exact hfirst.length_le hi hlow (hhas hother)
  · have hnear := hfirst.nearer hi hlow (hhas hother) hlength
    rw [Interval.abs_mid_sub_spot, Interval.abs_mid_sub_spot] at hnear
    exact le_of_mul_le_mul_right (le_of_mul_le_mul_left hnear two_pos) (pow_pos two_pos _)

theorem exists_value_shortest (hrank : 0 < rank) (hlarge : 10 ^ 16 ≤ BinaryFormat.double.magnitude rank)
    (tie : TieRule) : ∃ n : ℕ, (shortest tie rank).value = n := by
  obtain ⟨t, ht, hfirst, -, hmid⟩ := Interval.isFirst_ofRank hrank tie
  have hle := hfirst.le
  have hplace : 16 < (Interval.ofRank rank).firstPlace := by
    by_contra hnot
    have hgrid := Interval.gridStep_le (not_lt.mp hnot)
    have hspot := Interval.spot_eq ⟨1, 16⟩
    have hvalue : Decimal.value ⟨1, 16⟩ = 10 ^ 16 := one_mul _
    rw [Interval.spot, Nat.cast_one, one_mul, hvalue] at hspot
    have hscale : (0 : ℚ) ≤ 2 ^ BinaryFormat.double.unitPlaces := (pow_pos two_pos _).le
    have hscaled := mul_le_mul_of_nonneg_right hlarge hscale
    rw [Interval.mid_ofRank] at hmid
    linarith
  obtain ⟨k, hk⟩ := Int.eq_ofNat_of_zero_le (show 0 ≤ (shortest tie rank).exponent by omega)
  refine ⟨(shortest tie rank).coefficient * 10 ^ k, ?_⟩
  rw [Decimal.value, hk, zpow_natCast]
  push_cast
  rfl

end MessageCatalog.Binary64
