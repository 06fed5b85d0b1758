import Mathlib.Data.Nat.Digits.Lemmas
import MessageCatalog.Binary64.Text
import MessageCatalog.Proofs.Number.Digits

/-!
Decimals in an interval. The points of a grid next to the middle of an interval are nearer to it than the
others, so the search goes from the coarsest grid on to the first that has one of them in the interval: the
decimal it ends with has the fewest digits there, and of those with as many it is the nearest to the middle.
-/

namespace MessageCatalog

def Decimal.length (d : Decimal) : ℕ :=
  (Nat.digits 10 d.coefficient).length

namespace Binary64

namespace Interval

def From (i : Interval) (x : ℚ) : Prop :=
  i.low < x ∨ i.closed = true ∧ i.low = x

def UpTo (i : Interval) (x : ℚ) : Prop :=
  x < i.high ∨ i.closed = true ∧ x = i.high

def Has (i : Interval) (x : ℚ) : Prop :=
  i.From x ∧ i.UpTo x

structure IsProper (i : Interval) : Prop where
  pos : 0 < i.low
  low_lt : i.low < i.mid
  lt_high : i.mid < i.high

variable {i : Interval} {x y step : ℚ} {k n den : ℕ} {tie : TieRule} {e : ℤ}

theorem From.mono (h : i.From x) (hxy : x ≤ y) : i.From y := by
  rcases h with h | ⟨hc, rfl⟩
  · exact .inl (h.trans_le hxy)
  · rcases hxy.lt_or_eq with hlt | heq
    · exact .inl hlt
    · exact .inr ⟨hc, heq⟩

theorem UpTo.mono (h : i.UpTo y) (hxy : x ≤ y) : i.UpTo x := by
  rcases h with h | ⟨hc, rfl⟩
  · exact .inl (hxy.trans_lt h)
  · rcases hxy.lt_or_eq with hlt | heq
    · exact .inl hlt
    · exact .inr ⟨hc, heq⟩

theorem IsProper.from_of_le (hi : i.IsProper) (h : i.mid ≤ x) : i.From x :=
  .inl (lt_of_lt_of_le (by exact_mod_cast hi.low_lt) h)

theorem IsProper.upTo_of_le (hi : i.IsProper) (h : x ≤ i.mid) : i.UpTo x :=
  .inl (lt_of_le_of_lt h (by exact_mod_cast hi.lt_high))

theorem holds_iff (i : Interval) (n : ℕ) : i.holds n = true ↔ i.Has n := by
  rw [holds, Has, From, UpTo]
  cases i.closed with
  | true =>
    simp only [if_true, Bool.and_eq_true, decide_eq_true_eq, true_and, le_iff_lt_or_eq]
    norm_cast
  | false =>
    simp only [Bool.false_eq_true, if_false, Bool.and_eq_true, decide_eq_true_eq, false_and, or_false]
    norm_cast

theorem has_times (hk : 0 < k) : (i.times k).Has (x * k) ↔ i.Has x := by
  have hpos : (0 : ℚ) < k := by exact_mod_cast hk
  simp only [Has, From, UpTo, times, Nat.cast_mul, mul_lt_mul_iff_left₀ hpos, mul_left_inj' hpos.ne']

theorem IsProper.toward (hi : i.IsProper) (hx : i.Has x) (h : x ≤ y ∧ y ≤ i.mid ∨ i.mid ≤ y ∧ y ≤ x) :
    i.Has y ∧ |i.mid - y| ≤ |i.mid - x| := by
  rcases h with ⟨hxy, hy⟩ | ⟨hy, hyx⟩
  · exact ⟨⟨hx.1.mono hxy, hi.upTo_of_le hy⟩, abs_le_abs_of_nonneg (by linarith) (by linarith)⟩
  · exact ⟨⟨hi.from_of_le hy, hx.2.mono hyx⟩, abs_le_abs_of_nonpos (by linarith) (by linarith)⟩

structure IsNeighbour (i : Interval) (step : ℚ) (n : ℕ) : Prop where
  has : i.Has (n * step)
  near : |i.mid - n * step| < step
  nearest : ∀ c : ℕ, i.Has (c * step) → |i.mid - n * step| ≤ |i.mid - c * step|

theorem isNeighbour_times (hk : 0 < k) (h : (i.times k).IsNeighbour (step * k) n) :
    i.IsNeighbour step n := by
  have hpos : (0 : ℚ) < k := by exact_mod_cast hk
  have hdist : ∀ c : ℕ, |(i.times k).mid - c * (step * k)| = |i.mid - c * step| * k := by
    intro c
    rw [← abs_of_pos hpos, ← abs_mul, abs_of_pos hpos, times]
    push_cast
    ring_nf
  obtain ⟨hhas, hnear, hnearest⟩ := h
  rw [← mul_assoc, has_times hk] at hhas
  rw [hdist, mul_lt_mul_iff_left₀ hpos] at hnear
  refine ⟨hhas, hnear, fun c hc => ?_⟩
  have hc' := hnearest c
  rw [hdist, hdist, mul_le_mul_iff_left₀ hpos, ← mul_assoc, has_times hk] at hc'
  exact hc' hc

theorem mid_eq (i : Interval) (den : ℕ) :
    (i.mid : ℚ) = (i.mid / den : ℕ) * den + (i.mid % den : ℕ) := by
  exact_mod_cast (Nat.div_add_mod' i.mid den).symm

theorem abs_mid_sub_below (i : Interval) (den : ℕ) :
    |(i.mid : ℚ) - (i.mid / den : ℕ) * den| = (i.mid % den : ℕ) := by
  have hnonneg : (0 : ℚ) ≤ (i.mid % den : ℕ) := Nat.cast_nonneg _
  have hdiff : (i.mid : ℚ) - (i.mid / den : ℕ) * den = (i.mid % den : ℕ) := by
    linarith [i.mid_eq den]
  rw [hdiff, abs_of_nonneg hnonneg]

theorem abs_mid_sub_above (i : Interval) (hden : 0 < den) :
    |(i.mid : ℚ) - (i.mid / den + 1 : ℕ) * den| = den - (i.mid % den : ℕ) := by
  have hlt : ((i.mid % den : ℕ) : ℚ) < den := by exact_mod_cast Nat.mod_lt _ hden
  have hdiff : (i.mid : ℚ) - (i.mid / den + 1 : ℕ) * den = -(den - (i.mid % den : ℕ)) := by
    rw [Nat.cast_add, Nat.cast_one]
    linarith [i.mid_eq den]
  rw [hdiff, abs_neg, abs_of_pos (by linarith)]

theorem IsProper.toward_multiple (hi : i.IsProper) (hden : 0 < den) {c : ℕ} (hc : i.Has (c * den)) :
    (i.Has ((i.mid / den : ℕ) * den) ∧ ((i.mid % den : ℕ) : ℚ) ≤ |(i.mid : ℚ) - c * den|) ∨
      (i.Has ((i.mid / den + 1 : ℕ) * den) ∧ (den - (i.mid % den : ℕ) : ℚ) ≤ |(i.mid : ℚ) - c * den|) := by
  have hpos : (0 : ℚ) ≤ den := Nat.cast_nonneg _
  have hlt : ((i.mid % den : ℕ) : ℚ) ≤ den := by exact_mod_cast (Nat.mod_lt _ hden).le
  have hnonneg : (0 : ℚ) ≤ (i.mid % den : ℕ) := Nat.cast_nonneg _
  have hmid := i.mid_eq den
  rw [← abs_mid_sub_above i hden, ← abs_mid_sub_below]
  rcases Nat.lt_or_ge (i.mid / den) c with h | h
  · have hle : ((i.mid / den + 1 : ℕ) : ℚ) * den ≤ c * den :=
      mul_le_mul_of_nonneg_right (by exact_mod_cast h) hpos
    refine .inr (hi.toward hc (.inr ⟨?_, hle⟩))
    rw [Nat.cast_add, Nat.cast_one]
    linarith
  · have hle : (c : ℚ) * den ≤ (i.mid / den : ℕ) * den :=
      mul_le_mul_of_nonneg_right (by exact_mod_cast h) hpos
    exact .inl (hi.toward hc (.inl ⟨hle, by linarith⟩))

theorem IsProper.isNeighbour_below (hi : i.IsProper) (hden : 0 < den)
    (hhas : i.Has ((i.mid / den : ℕ) * den))
    (hle : i.Has ((i.mid / den + 1 : ℕ) * den) → 2 * (i.mid % den) ≤ den) :
    i.IsNeighbour den (i.mid / den) := by
  have hlt : ((i.mid % den : ℕ) : ℚ) < den := by exact_mod_cast Nat.mod_lt _ hden
  refine ⟨hhas, ?_, fun c hc => ?_⟩ <;> rw [abs_mid_sub_below]
  · exact hlt
  · rcases hi.toward_multiple hden hc with ⟨-, hnear⟩ | ⟨habove, hnear⟩
    · exact hnear
    · have hhalf : (2 * (i.mid % den : ℕ) : ℚ) ≤ den := by exact_mod_cast hle habove
      linarith

theorem IsProper.isNeighbour_above (hi : i.IsProper) (hden : 0 < den) (hrest : 0 < i.mid % den)
    (hhas : i.Has ((i.mid / den + 1 : ℕ) * den))
    (hle : i.Has ((i.mid / den : ℕ) * den) → den ≤ 2 * (i.mid % den)) :
    i.IsNeighbour den (i.mid / den + 1) := by
  have hpos : (0 : ℚ) < (i.mid % den : ℕ) := by exact_mod_cast hrest
  refine ⟨hhas, ?_, fun c hc => ?_⟩ <;> rw [abs_mid_sub_above i hden]
  · linarith
  · rcases hi.toward_multiple hden hc with ⟨hbelow, hnear⟩ | ⟨-, hnear⟩
    · have hhalf : (den : ℚ) ≤ 2 * (i.mid % den : ℕ) := by exact_mod_cast hle hbelow
      linarith
    · exact hnear

theorem upper_cases {below twice den : ℕ} :
    (upper tie below twice den = true → den ≤ twice) ∧
      (upper tie below twice den = false → twice ≤ den) := by
  unfold upper
  split
  case isTrue heq => exact ⟨fun _ => heq.ge, fun _ => heq.le⟩
  case isFalse => exact ⟨fun h => (of_decide_eq_true h).le, fun h => not_lt.mp (of_decide_eq_false h)⟩

theorem isNeighbour_of_neighbour? (hi : i.IsProper) (hden : 0 < den)
    (h : i.neighbour? tie den = some n) : i.IsNeighbour den n := by
  have hbelow := i.holds_iff (i.mid / den * den)
  have habove := i.holds_iff ((i.mid / den + 1) * den)
  rw [Nat.cast_mul] at hbelow habove
  simp only [neighbour?] at h
  split at h
  case h_1 hb ha =>
    split at h
    case isTrue hup =>
      cases h
      have hhalf := upper_cases.1 hup
      exact hi.isNeighbour_above hden (by omega) (habove.mp ha) (fun _ => hhalf)
    case isFalse hup =>
      cases h
      exact hi.isNeighbour_below hden (hbelow.mp hb) (fun _ => upper_cases.2 (Bool.not_eq_true _ ▸ hup))
  case h_2 hb ha =>
    cases h
    refine hi.isNeighbour_below hden (hbelow.mp hb) (fun hhas => ?_)
    rw [habove.mpr hhas] at ha
    cases ha
  case h_3 hb ha =>
    cases h
    have hrest : i.mid % den ≠ 0 := by
      intro hzero
      have hmid := i.mid_eq den
      rw [hzero, Nat.cast_zero, add_zero] at hmid
      rw [hbelow.mpr ⟨hi.from_of_le hmid.le, hi.upTo_of_le hmid.ge⟩] at hb
      cases hb
    refine hi.isNeighbour_above hden (Nat.pos_of_ne_zero hrest) (habove.mp ha) (fun hhas => ?_)
    rw [hbelow.mpr hhas] at hb
    cases hb
  case h_4 => cases h

theorem not_has_of_neighbour? (hi : i.IsProper) (hden : 0 < den) (h : i.neighbour? tie den = none)
    (c : ℕ) : ¬i.Has (c * den) := by
  intro hc
  have hbelow := i.holds_iff (i.mid / den * den)
  have habove := i.holds_iff ((i.mid / den + 1) * den)
  rw [Nat.cast_mul] at hbelow habove
  simp only [neighbour?] at h
  split at h
  case h_1 => cases h
  case h_2 => cases h
  case h_3 => cases h
  case h_4 hb ha =>
    rcases hi.toward_multiple hden hc with ⟨hhas, -⟩ | ⟨hhas, -⟩
    · rw [hbelow.mpr hhas] at hb
      cases hb
    · rw [habove.mpr hhas] at ha
      cases ha

def gridStep (e : ℤ) : ℚ :=
  2 ^ 1075 * 10 ^ e

theorem gridStep_pos (e : ℤ) : 0 < gridStep e :=
  mul_pos (pow_pos two_pos _) (zpow_pos (by norm_num) e)

theorem gridStep_add (e : ℤ) (k : ℕ) : gridStep (e + k) = 10 ^ k * gridStep e := by
  rw [gridStep, gridStep, zpow_add₀ (by norm_num), zpow_natCast, ← mul_assoc, mul_comm]

theorem gridStep_le {e' : ℤ} (h : e ≤ e') : gridStep e ≤ gridStep e' := by
  obtain ⟨k, rfl⟩ := Int.le.dest h
  rw [gridStep_add]
  exact le_mul_of_one_le_left (gridStep_pos e).le (one_le_pow₀ (by norm_num))

theorem cast_two_pow (places : ℕ) : ((2 ^ places : ℕ) : ℚ) = 2 ^ places := by
  push_cast
  rfl

theorem gridStep_zero : gridStep 0 = (2 ^ 1075 : ℕ) := by
  rw [gridStep, zpow_zero, mul_one]
  exact (cast_two_pow 1075).symm

theorem gridStep_natCast (k : ℕ) : gridStep k = (10 ^ k * 2 ^ 1075 : ℕ) := by
  rw [Nat.cast_mul, ← gridStep_zero, Nat.cast_pow, Nat.cast_ofNat, ← gridStep_add, zero_add]

theorem exists_onGrid? (i : Interval) (e : ℤ) : ∃ k den : ℕ, 0 < k ∧ 0 < den ∧ gridStep e * k = den ∧
    ∀ tie, i.onGrid? tie e = (i.times k).neighbour? tie den := by
  by_cases he : 0 ≤ e
  · obtain ⟨k, rfl⟩ := Int.eq_ofNat_of_zero_le he
    refine ⟨1, 2 ^ 1075 * 10 ^ k, Nat.one_pos, by positivity, ?_, fun tie => ?_⟩
    · rw [gridStep_natCast, Nat.cast_one, mul_one, Nat.mul_comm]
    · rw [onGrid?, if_pos he, Int.toNat_natCast, times, Nat.mul_one, Nat.mul_one, Nat.mul_one]
  · obtain ⟨k, hk⟩ := Int.eq_ofNat_of_zero_le (show 0 ≤ -e by omega)
    obtain rfl : e = -k := by omega
    refine ⟨10 ^ k, 2 ^ 1075, by positivity, Nat.two_pow_pos 1075, ?_, fun tie => ?_⟩
    · rw [mul_comm, Nat.cast_pow, Nat.cast_ofNat, ← gridStep_add, neg_add_cancel, gridStep_zero]
    · rw [onGrid?, if_neg he, Int.neg_neg, Int.toNat_natCast]

theorem IsProper.times (hi : i.IsProper) (hk : 0 < k) : (i.times k).IsProper :=
  ⟨Nat.mul_pos hi.pos hk, Nat.mul_lt_mul_of_pos_right hi.low_lt hk,
    Nat.mul_lt_mul_of_pos_right hi.lt_high hk⟩

theorem isNeighbour_of_onGrid? (hi : i.IsProper) (h : i.onGrid? tie e = some n) :
    i.IsNeighbour (gridStep e) n := by
  obtain ⟨k, den, hk, hden, hstep, hgrid⟩ := i.exists_onGrid? e
  rw [hgrid] at h
  apply isNeighbour_times hk
  rw [hstep]
  exact isNeighbour_of_neighbour? (hi.times hk) hden h

theorem not_has_of_onGrid? (hi : i.IsProper) (h : i.onGrid? tie e = none) (c : ℕ) :
    ¬i.Has (c * gridStep e) := by
  obtain ⟨k, den, hk, hden, hstep, hgrid⟩ := i.exists_onGrid? e
  rw [hgrid] at h
  rw [← has_times hk, mul_assoc, hstep]
  exact not_has_of_neighbour? (hi.times hk) hden h c

theorem search_eq {tries : ℕ} (h : ∃ t < tries, i.onGrid? tie (e - t) ≠ none) :
    ∃ t < tries, ∃ n, (∀ s < t, i.onGrid? tie (e - s) = none) ∧ i.onGrid? tie (e - t) = some n ∧
      i.search tie tries e = if n = 10 then ⟨1, e - t + 1⟩ else ⟨n, e - t⟩ := by
  induction tries generalizing e with
  | zero =>
    obtain ⟨t, ht, -⟩ := h
    exact absurd ht (Nat.not_lt_zero t)
  | succ tries ih =>
    cases hgrid : i.onGrid? tie e with
    | some n =>
      refine ⟨0, tries.succ_pos, n, fun s hs => absurd hs (Nat.not_lt_zero s), ?_, ?_⟩
      · rw [Nat.cast_zero, sub_zero, hgrid]
      · rw [search, hgrid, Nat.cast_zero, sub_zero]
        split
        case h_1 heq => cases heq; rfl
        case h_2 hne heq =>
          cases heq
          exact (if_neg fun h10 => hne h10).symm
        case h_3 heq => cases heq
    | none =>
      have hnext : ∀ s : ℕ, e - (s + 1 : ℕ) = e - 1 - s := by omega
      obtain ⟨t, ht, hsome⟩ := h
      cases t with
      | zero =>
        rw [Nat.cast_zero, sub_zero] at hsome
        exact absurd hgrid hsome
      | succ t =>
        rw [hnext] at hsome
        obtain ⟨t', ht', n, hnone, hn, hsearch⟩ := ih ⟨t, by omega, hsome⟩
        refine ⟨t' + 1, by omega, n, fun s hs => ?_, ?_, ?_⟩
        · cases s with
          | zero => rw [Nat.cast_zero, sub_zero, hgrid]
          | succ s =>
            rw [hnext]
            exact hnone s (by omega)
        · rw [hnext, hn]
        · rw [hnext, search, hgrid]
          exact hsearch

theorem gridStep_bounds {m count : ℕ} (places : ℕ) (hpos : 0 < count)
    (hleast : 10 ^ (count - 1) * 2 ^ 1075 ≤ m * 10 ^ places)
    (hlt : m * 10 ^ places < 10 ^ count * 2 ^ 1075) :
    gridStep (count - places - 1) ≤ m ∧ m < gridStep (count - places) := by
  have hscale : (0 : ℚ) < 10 ^ places := by positivity
  have hmoved : (10 : ℚ) ^ places * m = (m * 10 ^ places : ℕ) := by
    push_cast
    exact mul_comm _ _
  have hlow : (10 : ℚ) ^ places * gridStep (count - places - 1) ≤ 10 ^ places * m := by
    have hplace : (count - places - 1 : ℤ) + places = (count - 1 : ℕ) := by omega
    rw [← gridStep_add, hplace, gridStep_natCast, hmoved]
    exact Nat.cast_le.mpr hleast
  have hhigh : (10 : ℚ) ^ places * m < 10 ^ places * gridStep (count - places) := by
    rw [← gridStep_add, sub_add_cancel, gridStep_natCast, hmoved]
    exact Nat.cast_lt.mpr hlt
  exact ⟨le_of_mul_le_mul_left hlow hscale, lt_of_mul_lt_mul_left hhigh hscale.le⟩

theorem firstPlace_spec (hmost : 2 ^ 1075 ≤ i.mid * 10 ^ 340) :
    gridStep (i.firstPlace - 1) ≤ i.mid ∧ i.mid < gridStep i.firstPlace := by
  have hden : 0 < 2 ^ 1075 := Nat.two_pow_pos 1075
  have hpos := Nat.div_pos hmost hden
  obtain ⟨m, hm⟩ : ∃ m, i.mid * 10 ^ 340 / 2 ^ 1075 = m := ⟨_, rfl⟩
  rw [hm] at hpos
  have hcount : 0 < (Nat.digits 10 m).length := (Nat.lt_digits_length_iff (by decide) m).mpr hpos
  have hlow : 10 ^ ((Nat.digits 10 m).length - 1) ≤ i.mid * 10 ^ 340 / 2 ^ 1075 := by
    rw [hm, ← Nat.lt_digits_length_iff (by decide)]
    omega
  have hhigh : i.mid * 10 ^ 340 / 2 ^ 1075 < 10 ^ (Nat.digits 10 m).length := by
    rw [hm, ← Nat.digits_length_le_iff (by decide)]
  rw [firstPlace, hm, Text.digits_eq, List.length_reverse]
  exact gridStep_bounds 340 hcount ((Nat.le_div_iff_mul_le hden).mp hlow)
    ((Nat.div_lt_iff_lt_mul hden).mp hhigh)

theorem IsProper.exists_has (hi : i.IsProper) (hstep : 0 < step) (hsmall : 10 ^ 16 * step ≤ i.mid)
    (hwide : i.mid + 10 ^ 16 * i.low < 10 ^ 16 * i.high) : ∃ c : ℕ, i.Has (c * step) := by
  have hfloor : (⌊i.mid / step⌋₊ : ℚ) * step ≤ i.mid :=
    (le_div_iff₀ hstep).mp (Nat.floor_le (by positivity))
  have hnext : (i.mid : ℚ) < (⌊i.mid / step⌋₊ + 1 : ℕ) * step := by
    rw [Nat.cast_add, Nat.cast_one]
    exact (div_lt_iff₀ hstep).mp (Nat.lt_floor_add_one _)
  have hless : step < i.high - i.low := by
    have hwide' : (i.mid + 10 ^ 16 * i.low : ℚ) < 10 ^ 16 * i.high := by exact_mod_cast hwide
    linarith
  by_cases hlow : i.low < ⌊i.mid / step⌋₊ * step
  · exact ⟨_, .inl hlow, hi.upTo_of_le hfloor⟩
  · -- the next multiple cannot step over the interval, which is wider than the step
    refine ⟨_, hi.from_of_le hnext.le, .inl ?_⟩
    rw [Nat.cast_add, Nat.cast_one]
    linarith

def spot (d : Decimal) : ℚ :=
  d.coefficient * gridStep d.exponent

theorem IsProper.exists_on_grid (hi : i.IsProper) {t : ℕ} {d : Decimal} (hfirst : gridStep (e + t) ≤ i.mid)
    (hd : d.coefficient < 10 ^ (t + 1)) (hhas : i.Has (spot d)) :
    ∃ c : ℕ, i.Has (c * gridStep e) ∧ |i.mid - c * gridStep e| ≤ |i.mid - spot d| := by
  rcases Int.lt_or_le d.exponent e with hlt | hle
  · -- so few digits on a finer grid end below the first digit of the middle
    obtain ⟨k, hk⟩ := Int.eq_ofNat_of_zero_le (show 0 ≤ e - d.exponent - 1 by omega)
    have hplace : e + t = d.exponent + (k + 1 + t : ℕ) := by omega
    have hpower : ((10 ^ t : ℕ) : ℚ) * gridStep e = gridStep (e + t) := by
      rw [gridStep_add, Nat.cast_pow, Nat.cast_ofNat]
    have hbelow : spot d ≤ gridStep (e + t) := by
      rw [hplace, gridStep_add, spot]
      apply mul_le_mul_of_nonneg_right _ (gridStep_pos _).le
      have hmore : 10 ^ (t + 1) ≤ 10 ^ (k + 1 + t) := Nat.pow_le_pow_right (by decide) (by omega)
      exact_mod_cast hd.le.trans hmore
    refine ⟨10 ^ t, ?_⟩
    rw [hpower]
    exact hi.toward hhas (.inl ⟨hbelow, hfirst⟩)
  · obtain ⟨k, hk⟩ := Int.eq_ofNat_of_zero_le (show 0 ≤ d.exponent - e by omega)
    have hspot : ((d.coefficient * 10 ^ k : ℕ) : ℚ) * gridStep e = spot d := by
      have hplace : d.exponent = e + k := by omega
      rw [spot, hplace, gridStep_add, Nat.cast_mul, Nat.cast_pow, Nat.cast_ofNat, mul_assoc]
    refine ⟨d.coefficient * 10 ^ k, ?_⟩
    rw [hspot]
    exact ⟨hhas, le_rfl⟩

structure IsFirst (i : Interval) (first : ℤ) (t : ℕ) (d : Decimal) : Prop where
  coarser : ∀ s < t, ∀ c : ℕ, ¬i.Has (c * gridStep (first - s))
  has : i.Has (spot d)
  nearest : ∀ c : ℕ, i.Has (c * gridStep (first - t)) →
    |i.mid - spot d| ≤ |i.mid - c * gridStep (first - t)|
  lt : d.coefficient < 10 ^ (t + 1)
  le : first - t ≤ d.exponent

theorem IsNeighbour.le_pow {t : ℕ} (hmid : i.mid < gridStep (e + (t + 1 : ℕ)))
    (h : i.IsNeighbour (gridStep e) n) : n ≤ 10 ^ (t + 1) := by
  have hnear := (abs_lt.mp h.near).1
  rw [gridStep_add] at hmid
  have hlt : (n : ℚ) * gridStep e < (10 ^ (t + 1) + 1 : ℕ) * gridStep e := by
    push_cast
    linarith
  exact Nat.lt_succ_iff.mp (Nat.cast_lt.mp (lt_of_mul_lt_mul_right hlt (gridStep_pos e).le))

/-- Ten points of a grid are one of the grid above, so only the first grid can have a power of ten of its
points in the interval. -/
theorem IsNeighbour.eq_zero_of_pow {first : ℤ} {t : ℕ}
    (hcoarser : ∀ s < t, ∀ c : ℕ, ¬i.Has (c * gridStep (first - s)))
    (h : i.IsNeighbour (gridStep (first - t)) (10 ^ (t + 1))) : t = 0 := by
  by_contra hzero
  obtain ⟨s, rfl⟩ := Nat.exists_eq_succ_of_ne_zero hzero
  apply hcoarser s (by omega) (10 ^ (s + 1))
  have hplace : first - (s : ℤ) = first - (s + 1 : ℕ) + (1 : ℕ) := by omega
  have hhas := h.has
  rw [pow_succ (10 : ℕ), Nat.cast_mul, mul_assoc] at hhas
  rwa [hplace, gridStep_add, pow_one]

theorem IsNeighbour.isFirst {first : ℤ} {t : ℕ} (hmid : i.mid < gridStep (first + 1))
    (hcoarser : ∀ s < t, ∀ c : ℕ, ¬i.Has (c * gridStep (first - s)))
    (h : i.IsNeighbour (gridStep (first - t)) n) :
    i.IsFirst first t (if n = 10 then ⟨1, first - t + 1⟩ else ⟨n, first - t⟩) := by
  have hplace : first + 1 = first - t + (t + 1 : ℕ) := by omega
  have hle := h.le_pow (hplace ▸ hmid)
  by_cases h10 : n = 10
  · have hten : gridStep (first - t + 1) = 10 * gridStep (first - t) := by
      rw [← pow_one (10 : ℚ), ← gridStep_add, Nat.cast_one]
    have hspot : spot ⟨1, first - t + 1⟩ = n * gridStep (first - t) := by
      rw [spot, hten, h10, Nat.cast_one, one_mul, Nat.cast_ofNat]
    have hmore : first - (t : ℤ) ≤ first - t + 1 := by omega
    rw [if_pos h10]
    refine ⟨hcoarser, ?_, ?_, Nat.one_lt_pow (by omega) (by decide), hmore⟩
    · rw [hspot]
      exact h.has
    · rw [hspot]
      exact h.nearest
  · have hne : n ≠ 10 ^ (t + 1) := by
      rintro rfl
      obtain rfl := h.eq_zero_of_pow hcoarser
      exact h10 rfl
    rw [if_neg h10]
    exact ⟨hcoarser, h.has, h.nearest, lt_of_le_of_ne hle hne, le_rfl⟩

theorem isFirst_search (hi : i.IsProper) (hmost : 2 ^ 1075 ≤ i.mid * 10 ^ 340)
    (hwide : i.mid + 10 ^ 16 * i.low < 10 ^ 16 * i.high) (tie : TieRule) :
    ∃ t < 17, i.IsFirst (i.firstPlace - 1) t (i.search tie 17 (i.firstPlace - 1)) := by
  obtain ⟨hfirst, hmid⟩ := firstPlace_spec hmost
  have hplace : i.firstPlace - 1 - (16 : ℕ) + (16 : ℕ) = i.firstPlace - 1 := by omega
  rw [← hplace, gridStep_add] at hfirst
  obtain ⟨c, hc⟩ := hi.exists_has (gridStep_pos _) hfirst hwide
  have htries : ∃ t : ℕ, t < 17 ∧ i.onGrid? tie (i.firstPlace - 1 - t) ≠ none :=
    ⟨16, by decide, fun hnone => not_has_of_onGrid? hi hnone c hc⟩
  obtain ⟨t, ht, n, hnone, hn, hsearch⟩ := search_eq htries
  refine ⟨t, ht, ?_⟩
  rw [hsearch]
  apply (isNeighbour_of_onGrid? hi hn).isFirst
  · rwa [sub_add_cancel]
  · exact fun s hs => not_has_of_onGrid? hi (hnone s hs)

theorem length_le_iff {d : Decimal} {count : ℕ} : d.length ≤ count ↔ d.coefficient < 10 ^ count :=
  Nat.digits_length_le_iff (by decide) _

theorem IsFirst.length_le {first : ℤ} {t : ℕ} {d other : Decimal} (h : i.IsFirst first t d)
    (hi : i.IsProper) (hfirst : gridStep first ≤ i.mid) (hother : i.Has (spot other)) :
    d.length ≤ other.length := by
  by_contra hless
  have hlength := length_le_iff.mpr h.lt
  have hfew : other.coefficient < 10 ^ t := length_le_iff.mp (by omega)
  cases t with
  | zero =>
    have hpos : (0 : ℚ) < i.low := by exact_mod_cast hi.pos
    have hzero : spot other = 0 := by
      rw [spot, Nat.lt_one_iff.mp hfew, Nat.cast_zero, zero_mul]
    rw [hzero] at hother
    rcases hother.1 with hlow | ⟨-, hlow⟩ <;> linarith
  | succ s =>
    have hplace : first - s + s = first := sub_add_cancel _ _
    obtain ⟨c, hc, -⟩ := hi.exists_on_grid (hplace ▸ hfirst) hfew hother
    exact h.coarser s s.lt_succ_self c hc

theorem IsFirst.nearer {first : ℤ} {t : ℕ} {d other : Decimal} (h : i.IsFirst first t d)
    (hi : i.IsProper) (hfirst : gridStep first ≤ i.mid) (hother : i.Has (spot other))
    (hlength : other.length ≤ d.length) : |i.mid - spot d| ≤ |i.mid - spot other| := by
  have hfew : other.coefficient < 10 ^ (t + 1) :=
    length_le_iff.mp (hlength.trans (length_le_iff.mpr h.lt))
  have hplace : first - t + t = first := sub_add_cancel _ _
  obtain ⟨c, hc, hnear⟩ := hi.exists_on_grid (hplace ▸ hfirst) hfew hother
  exact (h.nearest c hc).trans hnear

end Interval

end Binary64

end MessageCatalog
