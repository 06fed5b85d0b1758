import Mathlib.Data.Nat.Cast.Order.Field
import MessageCatalog.Proofs.Binary64.Rounding
import MessageCatalog.Proofs.Decimal

namespace MessageCatalog

theorem IsNearestEven.near_nat {y : ℚ} {n k : ℕ} (h : IsNearestEven y n) (hk : k ≠ n) :
    |y - n| ≤ |y - k| ∧ (|y - n| = |y - k| → Even n) := by
  have hstep : (1 : ℚ) ≤ |(n : ℚ) - k| := by
    have hint : (1 : ℤ) ≤ |(n : ℤ) - k| := Int.one_le_abs (by omega)
    exact_mod_cast hint
  have htriangle : |(n : ℚ) - k| ≤ |y - n| + |y - k| := by
    rw [abs_sub_comm y n]
    exact abs_sub_le _ _ _
  have hnear := h.near
  refine ⟨by linarith, fun heq => h.even (le_antisymm hnear ?_)⟩
  linarith

theorem le_nearestEven (num den : ℕ) : num / den ≤ nearestEven num den := by
  simp only [nearestEven]
  split <;> omega

theorem abs_sub_le_abs_sub_iff {x a b : ℚ} (h : a < b) : |x - b| ≤ |x - a| ↔ a + b ≤ 2 * x := by
  rw [← sq_le_sq]
  constructor
  · intro hsq
    by_contra hlt
    nlinarith
  · intro hle
    nlinarith

theorem abs_sub_le_abs_sub_iff' {x a b : ℚ} (h : a < b) : |x - a| ≤ |x - b| ↔ 2 * x ≤ a + b := by
  rw [← sq_le_sq]
  constructor
  · intro hsq
    by_contra hlt
    nlinarith
  · intro hle
    nlinarith

namespace BinaryFormat

/-- The value of the magnitude of a rank. Infinity counts as the power of two after the last finite
magnitude. -/
def magnitude (f : BinaryFormat) (rank : ℕ) : ℚ :=
  f.units rank / 2 ^ f.unitPlaces

/-- No magnitude is nearer to the number than that of the rank, and one that is as near only if the rank is
even. -/
structure IsNearest (f : BinaryFormat) (q : ℚ) (rank : ℕ) : Prop where
  most : rank ≤ f.infinityRank
  near : ∀ other ≤ f.infinityRank, |q - f.magnitude rank| ≤ |q - f.magnitude other|
  even : ∀ other ≤ f.infinityRank, other ≠ rank →
    |q - f.magnitude rank| = |q - f.magnitude other| → Even rank

variable (f : BinaryFormat) {x q : ℚ} {rank other shift r : ℕ}

theorem strictMono_units : StrictMono f.units :=
  strictMono_nat_of_lt_succ fun n => f.units_lt_units n.lt_succ_self

theorem abs_sub_magnitude (q : ℚ) (rank : ℕ) :
    |q - f.magnitude rank| * 2 ^ f.unitPlaces = |q * 2 ^ f.unitPlaces - f.units rank| := by
  have hpos : (0 : ℚ) < 2 ^ f.unitPlaces := by positivity
  rw [magnitude, ← abs_of_pos hpos, ← abs_mul, abs_of_pos hpos, sub_mul, div_mul_cancel₀ _ hpos.ne']

theorem isNearest_iff_units : f.IsNearest q rank ↔ rank ≤ f.infinityRank ∧ ∀ other ≤ f.infinityRank,
    other ≠ rank → |q * 2 ^ f.unitPlaces - f.units rank| ≤ |q * 2 ^ f.unitPlaces - f.units other| ∧
      (|q * 2 ^ f.unitPlaces - f.units rank| = |q * 2 ^ f.unitPlaces - f.units other| → Even rank) := by
  have hpos : (0 : ℚ) < 2 ^ f.unitPlaces := by positivity
  simp only [← abs_sub_magnitude, mul_le_mul_iff_left₀ hpos, mul_left_inj' hpos.ne']
  constructor
  · exact fun h => ⟨h.most, fun other hother hne => ⟨h.near other hother, h.even other hother hne⟩⟩
  · refine fun h => ⟨h.1, fun other hother => ?_, fun other hother hne => (h.2 other hother hne).2⟩
    by_cases hne : other = rank
    · rw [hne]
    · exact (h.2 other hother hne).1

theorem isNearest_iff (hrank : rank ≤ f.infinityRank) : f.IsNearest q rank ↔
    (∀ other < rank, (f.units other + f.units rank : ℚ) ≤ 2 * (q * 2 ^ f.unitPlaces) ∧
      ((f.units other + f.units rank : ℚ) = 2 * (q * 2 ^ f.unitPlaces) → Even rank)) ∧
    ∀ other ≤ f.infinityRank, rank < other →
      2 * (q * 2 ^ f.unitPlaces) ≤ (f.units rank + f.units other : ℚ) ∧
      (2 * (q * 2 ^ f.unitPlaces) = (f.units rank + f.units other : ℚ) → Even rank) := by
  rw [isNearest_iff_units]
  generalize q * 2 ^ f.unitPlaces = x
  have hlt : ∀ {a b}, a < b → (f.units a : ℚ) < f.units b := fun h => by
    exact_mod_cast f.strictMono_units h
  have hbelow : ∀ {other}, other < rank →
      (|x - f.units rank| = |x - f.units other| ↔ (f.units other + f.units rank : ℚ) = 2 * x) := by
    intro other h
    rw [le_antisymm_iff, abs_sub_le_abs_sub_iff (hlt h), abs_sub_le_abs_sub_iff' (hlt h), ← le_antisymm_iff]
  have habove : ∀ {other}, rank < other →
      (|x - f.units rank| = |x - f.units other| ↔ 2 * x = (f.units rank + f.units other : ℚ)) := by
    intro other h
    rw [le_antisymm_iff, abs_sub_le_abs_sub_iff (hlt h), abs_sub_le_abs_sub_iff' (hlt h), ← le_antisymm_iff]
  constructor
  · rintro ⟨-, h⟩
    refine ⟨fun other hother => ?_, fun other hmost hother => ?_⟩
    · have := h other (hother.le.trans hrank) hother.ne
      rwa [hbelow hother, abs_sub_le_abs_sub_iff (hlt hother)] at this
    · have := h other hmost hother.ne'
      rwa [habove hother, abs_sub_le_abs_sub_iff' (hlt hother)] at this
  · rintro ⟨hlow, hhigh⟩
    refine ⟨hrank, fun other hmost hne => ?_⟩
    rcases Nat.lt_or_gt_of_ne hne with hother | hother
    · rw [hbelow hother, abs_sub_le_abs_sub_iff (hlt hother)]
      exact hlow other hother
    · rw [habove hother, abs_sub_le_abs_sub_iff' (hlt hother)]
      exact hhigh other hmost hother

theorem magnitude_lt (h : rank < other) : f.magnitude rank < f.magnitude other := by
  have hpos : (0 : ℚ) < 2 ^ f.unitPlaces := by positivity
  exact div_lt_div_of_pos_right (Nat.cast_lt.mpr (f.strictMono_units h)) hpos

theorem magnitude_le (h : rank ≤ other) : f.magnitude rank ≤ f.magnitude other := by
  rcases h.lt_or_eq with hlt | rfl
  · exact (f.magnitude_lt hlt).le
  · exact le_rfl

theorem IsNearest.add_le {f : BinaryFormat} (h : f.IsNearest q rank) (hother : other < rank) :
    f.magnitude other + f.magnitude rank ≤ 2 * q := by
  have hnear := h.near other (hother.le.trans h.most)
  rwa [abs_sub_le_abs_sub_iff (f.magnitude_lt hother)] at hnear

theorem IsNearest.le_add {f : BinaryFormat} (h : f.IsNearest q rank) (hmost : other ≤ f.infinityRank)
    (hother : rank < other) : 2 * q ≤ f.magnitude rank + f.magnitude other := by
  have hnear := h.near other hmost
  rwa [abs_sub_le_abs_sub_iff' (f.magnitude_lt hother)] at hnear

theorem IsNearest.unique {f : BinaryFormat} (h : f.IsNearest q rank) (h' : f.IsNearest q other) :
    rank = other := by
  wlog hlt : rank < other generalizing rank other
  · rcases Nat.lt_trichotomy rank other with hless | heq | hless
    · exact this h h' hless
    · exact heq
    · exact (this h' h hless).symm
  have hle := h.le_add h'.most hlt
  have hge := h'.add_le hlt
  have htie : |q - f.magnitude rank| = |q - f.magnitude other| :=
    le_antisymm (h.near other h'.most) (h'.near rank h.most)
  -- both are even, so there is a magnitude between them, which is nearer
  have heven := h.even other h'.most hlt.ne' htie
  have heven' := h'.even rank h.most hlt.ne htie.symm
  have hbetween : rank + 1 < other := by
    rw [Nat.even_iff] at heven heven'
    omega
  have hnext := h.le_add (hbetween.le.trans h'.most) rank.lt_succ_self
  have hless := f.magnitude_lt hbetween
  linarith

theorem IsNearest.succ_le {f : BinaryFormat} (h : f.IsNearest q rank) (hmost : other + 1 ≤ f.infinityRank)
    (hq : f.magnitude other + f.magnitude (other + 1) < 2 * q) : other + 1 ≤ rank := by
  by_contra hlt
  have hle := h.le_add hmost (not_le.mp hlt)
  have hbelow := f.magnitude_le (Nat.le_of_lt_succ (not_le.mp hlt))
  linarith

theorem IsNearest.le_of_magnitude_le {f : BinaryFormat} (h : f.IsNearest q rank)
    (hmost : other ≤ f.infinityRank) (hq : f.magnitude other ≤ q) : other ≤ rank := by
  by_contra hlt
  have hle := h.le_add hmost (not_le.mp hlt)
  have hbelow := f.magnitude_lt (not_le.mp hlt)
  linarith

theorem units_of_le {step : ℕ} (hstep : 2 ^ f.fractionBits = step) {k below : ℕ} (hbelow : below < step) :
    f.units (below + (k + 1) * step) = (step + below) * 2 ^ k := by
  have hpos : 0 < step := hstep ▸ Nat.two_pow_pos _
  have hnot : ¬below + (k + 1) * step < step := by
    have hle : step ≤ (k + 1) * step := Nat.le_mul_of_pos_left step k.succ_pos
    omega
  rw [units, hstep, if_neg hnot, Nat.add_mul_div_right _ _ hpos, Nat.add_mul_mod_self_right,
    Nat.div_eq_of_lt hbelow, Nat.mod_eq_of_lt hbelow, Nat.zero_add, Nat.add_sub_cancel]

theorem units_of_lt (h : rank < 2 ^ f.fractionBits) : f.units rank = rank :=
  if_pos h

theorem units_shift (h : shift = 0 ∨ 2 ^ f.fractionBits ≤ r) (hr : r ≤ 2 * 2 ^ f.fractionBits) :
    f.units (shift * 2 ^ f.fractionBits + r) = r * 2 ^ shift := by
  have hpos := Nat.two_pow_pos f.fractionBits
  obtain ⟨step, hstep⟩ : ∃ step, 2 ^ f.fractionBits = step := ⟨_, rfl⟩
  rw [hstep] at h hr hpos ⊢
  by_cases hsmall : r < step
  · obtain rfl := h.resolve_right (by omega)
    rw [Nat.zero_mul, Nat.zero_add, f.units_of_lt (by omega), Nat.pow_zero, Nat.mul_one]
  by_cases hlast : r = 2 * step
  · have hrank : shift * step + r = 0 + (shift + 1 + 1) * step := by
      rw [hlast]
      ring
    rw [hrank, f.units_of_le hstep hpos, hlast, Nat.pow_succ]
    ring
  · have hrank : shift * step + r = (r - step) + (shift + 1) * step := by
      rw [Nat.add_mul, Nat.one_mul]
      omega
    have hr' : step + (r - step) = r := by omega
    rw [hrank, f.units_of_le hstep (by omega), hr']

theorem magnitude_shift (hr : 2 ^ f.fractionBits ≤ r) (hr' : r ≤ 2 * 2 ^ f.fractionBits)
    (hrank : rank = (f.unitPlaces + shift) * 2 ^ f.fractionBits + r) :
    f.magnitude rank = (r * 2 ^ shift : ℕ) := by
  have hpos : (0 : ℚ) < 2 ^ f.unitPlaces := by positivity
  rw [hrank, magnitude, f.units_shift (.inr hr) hr', div_eq_iff hpos.ne', Nat.pow_add]
  push_cast
  ring

theorem exists_units_eq (h : shift = 0 ∨ (shift + 1) * 2 ^ f.fractionBits ≤ rank) :
    ∃ k, f.units rank = k * 2 ^ shift := by
  have hpos := Nat.two_pow_pos f.fractionBits
  rcases h with rfl | h
  · exact ⟨f.units rank, by rw [Nat.pow_zero, Nat.mul_one]⟩
  · have hle : shift + 1 ≤ rank / 2 ^ f.fractionBits := (Nat.le_div_iff_mul_le hpos).mpr h
    have hnot : ¬rank < 2 ^ f.fractionBits := by
      have hstep : 2 ^ f.fractionBits ≤ (shift + 1) * 2 ^ f.fractionBits :=
        Nat.le_mul_of_pos_left _ shift.succ_pos
      omega
    have hexponent : rank / 2 ^ f.fractionBits - 1 = rank / 2 ^ f.fractionBits - 1 - shift + shift := by
      omega
    rw [units, if_neg hnot, hexponent, Nat.pow_add, ← Nat.mul_assoc]
    exact ⟨_, rfl⟩

theorem exists_gap (rank : ℕ) : ∃ gap k, f.units rank = k * gap ∧ f.units (rank + 1) = (k + 1) * gap ∧
    k < 2 * 2 ^ f.fractionBits := by
  have hpos := Nat.two_pow_pos f.fractionBits
  obtain ⟨shift, k, hrank, hk, hmost⟩ : ∃ shift k, rank = shift * 2 ^ f.fractionBits + k ∧
      (shift = 0 ∨ 2 ^ f.fractionBits ≤ k) ∧ k < 2 * 2 ^ f.fractionBits := by
    by_cases hsmall : rank < 2 ^ f.fractionBits
    · exact ⟨0, rank, by omega, .inl rfl, by omega⟩
    · have hmod := Nat.mod_lt rank hpos
      have hsplit := Nat.div_add_mod' rank (2 ^ f.fractionBits)
      have hexponent : rank / 2 ^ f.fractionBits = rank / 2 ^ f.fractionBits - 1 + 1 := by
        have hone : 1 ≤ rank / 2 ^ f.fractionBits := (Nat.one_le_div_iff hpos).mpr (by omega)
        omega
      rw [hexponent, Nat.add_mul, Nat.one_mul] at hsplit
      exact ⟨rank / 2 ^ f.fractionBits - 1, 2 ^ f.fractionBits + rank % 2 ^ f.fractionBits, by omega,
        .inr (by omega), by omega⟩
  refine ⟨2 ^ shift, k, ?_, ?_, hmost⟩
  · rw [hrank, f.units_shift hk hmost.le]
  · rw [hrank, Nat.add_assoc, f.units_shift (hk.imp_right fun h => by omega) (by omega)]

section rounding

variable (hbits : 0 < f.fractionBits) (hr : IsNearestEven (x / 2 ^ shift) r)
  (hmost : r ≤ 2 * 2 ^ f.fractionBits)
  (hshift : shift = 0 ∨ 2 ^ f.fractionBits ≤ r ∧ (2 ^ f.fractionBits * 2 ^ shift : ℚ) ≤ x)
include hbits hr hmost hshift

omit hbits hmost hshift in
theorem near_grid {k : ℕ} (hk : k ≠ r) : |x - (r * 2 ^ shift : ℕ)| ≤ |x - (k * 2 ^ shift : ℕ)| ∧
    (|x - (r * 2 ^ shift : ℕ)| = |x - (k * 2 ^ shift : ℕ)| → Even r) := by
  have hpos : (0 : ℚ) < 2 ^ shift := by positivity
  have hscale : ∀ n : ℕ, |x - (n * 2 ^ shift : ℕ)| = |x / 2 ^ shift - n| * 2 ^ shift := by
    intro n
    rw [← abs_of_pos hpos, ← abs_mul, abs_of_pos hpos, sub_mul, div_mul_cancel₀ _ hpos.ne']
    push_cast
    rfl
  rw [hscale, hscale, mul_le_mul_iff_left₀ hpos, mul_left_inj' hpos.ne']
  exact hr.near_nat hk

theorem near_units (hne : other ≠ shift * 2 ^ f.fractionBits + r) :
    |x - f.units (shift * 2 ^ f.fractionBits + r)| ≤ |x - f.units other| ∧
      (|x - f.units (shift * 2 ^ f.fractionBits + r)| = |x - f.units other| →
        Even (shift * 2 ^ f.fractionBits + r)) := by
  have hunits := f.units_shift (hshift.imp_right And.left) hmost
  rw [hunits]
  by_cases hgrid : shift = 0 ∨ (shift + 1) * 2 ^ f.fractionBits ≤ other
  · obtain ⟨k, hk⟩ := f.exists_units_eq hgrid
    have hkr : k ≠ r := by
      rintro rfl
      exact hne (f.strictMono_units.injective (hk.trans hunits.symm))
    have heven : Even (shift * 2 ^ f.fractionBits) :=
      ((Nat.even_pow.mpr ⟨even_two, hbits.ne'⟩).mul_left shift)
    rw [hk]
    exact ⟨(near_grid hr hkr).1, fun heq => heven.add ((near_grid hr hkr).2 heq)⟩
  · -- the other magnitude is below all of the grid, whose first point is nearer
    push Not at hgrid
    obtain ⟨hle, hx⟩ := hshift.resolve_left hgrid.1
    have hfirst : f.units ((shift + 1) * 2 ^ f.fractionBits) = 2 ^ f.fractionBits * 2 ^ shift := by
      have hrank := f.units_of_le rfl (k := shift) (Nat.two_pow_pos f.fractionBits)
      rwa [Nat.zero_add, Nat.add_zero] at hrank
    have hother := f.strictMono_units hgrid.2
    rw [hfirst] at hother
    have hother' : (f.units other : ℚ) < 2 ^ f.fractionBits * 2 ^ shift := by exact_mod_cast hother
    have hnear : |x - (r * 2 ^ shift : ℕ)| ≤ |x - (2 ^ f.fractionBits * 2 ^ shift : ℕ)| := by
      by_cases hk : 2 ^ f.fractionBits = r
      · rw [hk]
      · exact (near_grid hr hk).1
    push_cast at hnear ⊢
    rw [abs_of_nonneg (by linarith : (0 : ℚ) ≤ x - 2 ^ f.fractionBits * 2 ^ shift)] at hnear
    rw [abs_of_nonneg (by linarith : (0 : ℚ) ≤ x - f.units other)]
    exact ⟨by linarith, fun heq => absurd heq (by linarith)⟩

theorem isNearest_min (hx : q * 2 ^ f.unitPlaces = x) :
    f.IsNearest q (min (shift * 2 ^ f.fractionBits + r) f.infinityRank) := by
  have hall {other : ℕ} (hne : other ≠ shift * 2 ^ f.fractionBits + r) :=
    f.near_units hbits hr hmost hshift hne
  rw [isNearest_iff_units, hx]
  generalize shift * 2 ^ f.fractionBits + r = rank at hall
  by_cases hrank : rank ≤ f.infinityRank
  · rw [min_eq_left hrank]
    exact ⟨hrank, fun other _ hne => hall hne⟩
  · rw [min_eq_right (by omega)]
    refine ⟨le_rfl, fun other hother hne => ?_⟩
    have hlast : (f.units f.infinityRank : ℚ) < f.units rank := by
      exact_mod_cast f.strictMono_units (not_le.mp hrank)
    have hless : (f.units other : ℚ) < f.units f.infinityRank := by
      exact_mod_cast f.strictMono_units (by omega)
    have hbeyond := (abs_sub_le_abs_sub_iff hlast).mp (hall (by omega)).1
    rw [abs_of_nonneg (by linarith : (0 : ℚ) ≤ x - f.units f.infinityRank),
      abs_of_nonneg (by linarith : (0 : ℚ) ≤ x - f.units other)]
    exact ⟨by linarith, fun heq => absurd heq (by linarith)⟩

end rounding

theorem isNearest_nearestRank (hbits : 0 < f.fractionBits) (num : ℕ) {den : ℕ} (hden : 0 < den) :
    f.IsNearest (num / den) (f.nearestRank num den) := by
  have hx : (num / den : ℚ) * 2 ^ f.unitPlaces = (num * 2 ^ f.unitPlaces : ℕ) / den := by
    push_cast
    ring
  unfold nearestRank
  generalize num * 2 ^ f.unitPlaces = scaled at hx
  dsimp only
  obtain ⟨shift, hs⟩ : ∃ shift, Nat.log2 (scaled / den) - f.fractionBits = shift := ⟨_, rfl⟩
  rw [hs]
  have hfloor : scaled / (den * 2 ^ shift) = scaled / den / 2 ^ shift := (Nat.div_div_eq_div_mul _ _ _).symm
  have hr := isNearestEven_nearestEven scaled (Nat.mul_pos hden (Nat.two_pow_pos shift))
  have hmost := nearestEven_le scaled (den * 2 ^ shift)
  have hleast := le_nearestEven scaled (den * 2 ^ shift)
  rw [hfloor] at hmost hleast
  refine f.isNearest_min hbits (x := scaled / den) ?_ ?_ ?_ hx
  · rw [div_div]
    exact_mod_cast hr
  · have hlt := div_two_pow_log2_lt (scaled / den) f.fractionBits
    rw [hs, Nat.pow_succ] at hlt
    omega
  · by_cases hzero : shift = 0
    · exact .inl hzero
    have hquotient : scaled / den ≠ 0 := by
      intro h
      rw [h, Nat.log2_zero, Nat.zero_sub] at hs
      exact hzero hs.symm
    have hlog : 2 ^ f.fractionBits * 2 ^ shift ≤ scaled / den := by
      rw [← Nat.pow_add]
      have hexponent : f.fractionBits + shift = Nat.log2 (scaled / den) := by omega
      rw [hexponent]
      exact Nat.log2_self_le hquotient
    refine .inr ⟨((Nat.le_div_iff_mul_le (Nat.two_pow_pos shift)).mpr hlog).trans hleast, ?_⟩
    calc
      (2 ^ f.fractionBits * 2 ^ shift : ℚ) = (2 ^ f.fractionBits * 2 ^ shift : ℕ) := by push_cast; rfl
      _ ≤ (scaled / den : ℕ) := by exact_mod_cast hlog
      _ ≤ scaled / den := Nat.cast_div_le

theorem isNearest_iff_eq_nearestRank (hbits : 0 < f.fractionBits) {num den : ℕ} (hden : 0 < den) :
    f.IsNearest (num / den) rank ↔ rank = f.nearestRank num den := by
  have hnearest := f.isNearest_nearestRank hbits num hden
  constructor
  · exact fun h => h.unique hnearest
  · rintro rfl
    exact hnearest

end BinaryFormat

end MessageCatalog
