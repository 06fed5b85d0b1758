import Mathlib.Order.Monotone.Basic
import MessageCatalog.Binary64.Basic

namespace MessageCatalog

theorem BinaryFormat.units_lt_units (f : BinaryFormat) {r q : Nat} (h : r < q) :
    f.units r < f.units q := by
  have hpos : 0 < 2 ^ f.fractionBits := Nat.two_pow_pos _
  have hr := Nat.div_add_mod r (2 ^ f.fractionBits)
  have hq := Nat.div_add_mod q (2 ^ f.fractionBits)
  have hrm := Nat.mod_lt r hpos
  have hqm := Nat.mod_lt q hpos
  have hdiv : r / 2 ^ f.fractionBits ≤ q / 2 ^ f.fractionBits := Nat.div_le_div_right h.le
  simp only [units]
  split
  case isTrue hr0 =>
    split
    case isTrue => exact h
    case isFalse =>
      calc
        r < 2 ^ f.fractionBits := hr0
        _ ≤ 2 ^ f.fractionBits + q % 2 ^ f.fractionBits := Nat.le_add_right _ _
        _ ≤ _ := Nat.le_mul_of_pos_right _ (Nat.two_pow_pos _)
  case isFalse hr0 =>
    have hq0 : ¬q < 2 ^ f.fractionBits := by omega
    rw [if_neg hq0]
    by_cases hsame : r / 2 ^ f.fractionBits = q / 2 ^ f.fractionBits
    · rw [hsame] at hr ⊢
      exact Nat.mul_lt_mul_of_pos_right (by omega) (Nat.two_pow_pos _)
    · -- one exponent more is worth twice the greatest fraction
      have hone : 1 ≤ r / 2 ^ f.fractionBits := (Nat.one_le_div_iff hpos).mpr (by omega)
      have hle : r / 2 ^ f.fractionBits - 1 + 1 ≤ q / 2 ^ f.fractionBits - 1 := by omega
      calc
        (2 ^ f.fractionBits + r % 2 ^ f.fractionBits) * 2 ^ (r / 2 ^ f.fractionBits - 1)
          < (2 ^ f.fractionBits * 2) * 2 ^ (r / 2 ^ f.fractionBits - 1) :=
            Nat.mul_lt_mul_of_pos_right (by omega) (Nat.two_pow_pos _)
        _ = 2 ^ f.fractionBits * 2 ^ (r / 2 ^ f.fractionBits - 1 + 1) := by
            rw [Nat.pow_succ, Nat.mul_assoc, Nat.mul_comm 2]
        _ ≤ 2 ^ f.fractionBits * 2 ^ (q / 2 ^ f.fractionBits - 1) :=
            Nat.mul_le_mul_left _ (Nat.pow_le_pow_right Nat.two_pos hle)
        _ ≤ (2 ^ f.fractionBits + q % 2 ^ f.fractionBits) * 2 ^ (q / 2 ^ f.fractionBits - 1) :=
            Nat.mul_le_mul_right _ (Nat.le_add_right _ _)

namespace Binary64

def value? : Binary64 → Option Int
  | nan => none
  | signed negative rank => some (if negative then -(units rank : Int) else units rank)

def AtMost (x y : Binary64) : Prop :=
  ∃ a b, x.value? = some a ∧ y.value? = some b ∧ a ≤ b

def Less (x y : Binary64) : Prop :=
  ∃ a b, x.value? = some a ∧ y.value? = some b ∧ a < b

/-- The least double above another one. Positive infinity has none above and stands for itself. -/
def IsLeastAbove (x y : Binary64) : Prop :=
  (x = infinity false ∧ y = x) ∨ (Less x y ∧ ∀ z, Less x z → AtMost y z)

variable {x y z : Binary64} {s t : Bool} {r q : Fin (BinaryFormat.double.infinityRank + 1)}

theorem units_lt_units_iff {a b : Nat} : units a < units b ↔ a < b :=
  (strictMono_nat_of_lt_succ fun n => BinaryFormat.double.units_lt_units n.lt_succ_self).lt_iff_lt

theorem units_zero : units 0 = 0 := rfl

theorem less_signed : Less (signed s r) (signed t q) ↔ place s r < place t q := by
  have hrq := units_lt_units_iff (a := r) (b := q)
  have hqr := units_lt_units_iff (a := q) (b := r)
  have hr := units_lt_units_iff (a := 0) (b := r)
  have hq := units_lt_units_iff (a := 0) (b := q)
  rw [units_zero] at hr hq
  cases s <;> cases t <;> simp only [Less, value?, place, Option.some.injEq, exists_eq_left',
    exists_and_left, if_true, if_false, Bool.false_eq_true] <;> omega

theorem atMost_signed : AtMost (signed s r) (signed t q) ↔ place s r ≤ place t q := by
  have h : AtMost (signed s r) (signed t q) ↔ ¬Less (signed t q) (signed s r) := by
    simp only [AtMost, Less, value?, Option.some.injEq, exists_and_left, exists_eq_left', not_lt]
  rw [h, less_signed, not_lt]

theorem le_iff : x.le y = true ↔ AtMost x y := by
  cases x with
  | nan => simp [le, AtMost, value?]
  | signed s r =>
    cases y with
    | nan => simp [le, AtMost, value?]
    | signed t q => rw [atMost_signed, le, decide_eq_true_eq]

theorem Less.atMost (h : Less x y) : AtMost x y := by
  obtain ⟨a, b, ha, hb, hab⟩ := h
  exact ⟨a, b, ha, hb, hab.le⟩

theorem Less.trans (hxy : Less x y) (hyz : Less y z) : Less x z := by
  obtain ⟨a, b, ha, hb, hab⟩ := hxy
  obtain ⟨b', c, hb', hc, hbc⟩ := hyz
  rw [hb, Option.some.injEq] at hb'
  exact ⟨a, c, ha, hc, hab.trans (hb' ▸ hbc)⟩

theorem Less.trans_atMost (hxy : Less x y) (hyz : AtMost y z) : Less x z := by
  obtain ⟨a, b, ha, hb, hab⟩ := hxy
  obtain ⟨b', c, hb', hc, hbc⟩ := hyz
  rw [hb, Option.some.injEq] at hb'
  exact ⟨a, c, ha, hc, hab.trans_le (hb' ▸ hbc)⟩

theorem AtMost.trans_less (hxy : AtMost x y) (hyz : Less y z) : Less x z := by
  obtain ⟨a, b, ha, hb, hab⟩ := hxy
  obtain ⟨b', c, hb', hc, hbc⟩ := hyz
  rw [hb, Option.some.injEq] at hb'
  exact ⟨a, c, ha, hc, hab.trans_lt (hb' ▸ hbc)⟩

theorem AtMost.antisymm (hxy : AtMost x y) (hyx : AtMost y x) : x.value? = y.value? := by
  obtain ⟨a, b, ha, hb, hab⟩ := hxy
  obtain ⟨b', a', hb', ha', hba⟩ := hyx
  rw [hb, Option.some.injEq] at hb'
  rw [ha, Option.some.injEq] at ha'
  rw [ha, hb, le_antisymm hab (by omega)]

theorem not_atMost_iff (hx : x ≠ nan) (hy : y ≠ nan) : ¬AtMost x y ↔ Less y x := by
  cases x with
  | nan => exact absurd rfl hx
  | signed s r =>
    cases y with
    | nan => exact absurd rfl hy
    | signed t q => rw [atMost_signed, less_signed, not_le]

theorem Less.right_ne_nan (h : Less x y) : y ≠ nan := by
  rintro rfl
  obtain ⟨a, b, -, hb, -⟩ := h
  cases hb

theorem exists_next (h : signed s r ≠ infinity false) :
    ∃ t q, (signed s r).next = signed t q ∧ place t q = place s r + 1 := by
  have hpos : 1 ≤ infinityRank := by decide
  have hr : r.val ≤ infinityRank := Nat.le_of_lt_succ r.isLt
  cases s with
  | true =>
    by_cases hz : r.val = 0
    · refine ⟨false, _, if_pos hz, ?_⟩
      simp only [place, hz]
      omega
    · refine ⟨true, _, if_neg hz, ?_⟩
      simp only [place]
      omega
  | false =>
    have hlt : r.val ≠ infinityRank := by
      intro hr
      apply h
      rw [infinity, ofRank, signed.injEq]
      exact ⟨rfl, Fin.ext (by simpa using hr)⟩
    refine ⟨false, _, rfl, ?_⟩
    simp only [place]
    omega

theorem next_infinity : (infinity false).next = infinity false := by
  rw [infinity, ofRank, next]
  simp only [ofRank, signed.injEq, Fin.mk.injEq, true_and]
  omega

theorem isLeastAbove_next (h : x ≠ nan) : IsLeastAbove x x.next := by
  by_cases hi : x = infinity false
  · subst hi
    exact .inl ⟨rfl, next_infinity⟩
  · cases x with
    | nan => exact absurd rfl h
    | signed s r =>
      obtain ⟨t, q, hnext, hplace⟩ := exists_next hi
      rw [hnext]
      refine .inr ⟨less_signed.mpr (by omega), fun z hz => ?_⟩
      cases z with
      | nan => exact absurd rfl hz.right_ne_nan
      | signed u p =>
        have hp := less_signed.mp hz
        exact atMost_signed.mpr (by omega)

theorem not_infinity_less (x : Binary64) : ¬Less (infinity false) x := by
  intro h
  cases x with
  | nan => exact h.right_ne_nan rfl
  | signed s r =>
    have hplace := less_signed.mp h
    have hle : r.val ≤ infinityRank := Nat.le_of_lt_succ r.isLt
    cases s <;> simp only [place] at hplace <;> omega

theorem IsLeastAbove.value?_eq (hy : IsLeastAbove x y) (hz : IsLeastAbove x z) :
    y.value? = z.value? := by
  obtain ⟨rfl, rfl⟩ | ⟨hxy, hleast⟩ := hy
  · obtain ⟨-, rfl⟩ | ⟨hxz, -⟩ := hz
    · rfl
    · exact absurd hxz (not_infinity_less z)
  · obtain ⟨rfl, -⟩ | ⟨hxz, hleast'⟩ := hz
    · exact absurd hxy (not_infinity_less y)
    · exact (hleast z hxz).antisymm (hleast' y hxy)

theorem less_next (hx : x ≠ nan) (hi : x ≠ infinity false) : Less x x.next := by
  obtain ⟨h, -⟩ | ⟨hless, -⟩ := isLeastAbove_next hx
  · exact absurd h hi
  · exact hless

theorem next_atMost_iff (hx : x ≠ nan) (hi : x ≠ infinity false) : AtMost x.next y ↔ Less x y := by
  obtain ⟨h, -⟩ | ⟨hless, hleast⟩ := isLeastAbove_next hx
  · exact absurd h hi
  · exact ⟨hless.trans_atMost, hleast y⟩

theorem next_ne_nan (h : x ≠ nan) : x.next ≠ nan := by
  obtain ⟨-, hnext⟩ | ⟨hless, -⟩ := isLeastAbove_next h
  · rwa [hnext]
  · exact hless.right_ne_nan

end Binary64

end MessageCatalog
