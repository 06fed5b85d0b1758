import MessageCatalog.Decimal
import Mathlib.Algebra.Order.Field.Basic
import Mathlib.Data.Rat.Floor
import Mathlib.Tactic.FieldSimp
import Mathlib.Tactic.Linarith
import Mathlib.Tactic.Ring

namespace MessageCatalog

structure IsNearestEven (q : ℚ) (n : ℕ) : Prop where
  near : |q - n| ≤ 1 / 2
  even : |q - n| = 1 / 2 → Even n

theorem IsNearestEven.natCast (n : ℕ) : IsNearestEven n n where
  near := by simp
  even h := by simp at h

theorem IsNearestEven.unique {q : ℚ} {m n : ℕ} (hm : IsNearestEven q m) (hn : IsNearestEven q n) :
    m = n := by
  wlog hlt : m < n generalizing m n
  · rcases Nat.lt_trichotomy m n with h | h | h
    · exact this hm hn h
    · exact h
    · exact (this hn hm h).symm
  have hm' := abs_le.mp hm.near
  have hn' := abs_le.mp hn.near
  have hstep : (m : ℚ) + 1 ≤ n := by exact_mod_cast hlt
  -- both are half a unit away, so they are neighbours, and both even
  have hmhalf : q - m = 1 / 2 := by linarith
  have hnhalf : q - n = -(1 / 2) := by linarith
  have hneighbour : (n : ℚ) = (m + 1 : ℕ) := by
    push_cast
    linarith
  have hmeven : Even m := hm.even (by rw [hmhalf, abs_of_pos (by norm_num)])
  have hneven : Even n := hn.even (by rw [hnhalf, abs_neg, abs_of_pos (by norm_num)])
  rw [Nat.cast_inj.mp hneighbour, Nat.even_add_one] at hneven
  exact absurd hmeven hneven

theorem isNearestEven_nearestEven (num : ℕ) {den : ℕ} (hden : 0 < den) :
    IsNearestEven (num / den) (nearestEven num den) := by
  have hpos : (0 : ℚ) < den := by exact_mod_cast hden
  have hsplit : (num : ℚ) = den * (num / den : ℕ) + (num % den : ℕ) := by
    exact_mod_cast (Nat.div_add_mod num den).symm
  obtain ⟨x, hx⟩ : ∃ x : ℚ, x = (num % den : ℕ) / den := ⟨_, rfl⟩
  have hdiff : (num : ℚ) / den - (num / den : ℕ) = x := by
    rw [hsplit, hx]
    field_simp
    ring
  have hnonneg : 0 ≤ x := by
    rw [hx]
    positivity
  have hlt : x < 1 := by
    rw [hx, div_lt_one hpos]
    exact_mod_cast Nat.mod_lt num hden
  have hhalf : 1 / 2 < x ↔ den < 2 * (num % den) := by
    rw [hx, div_lt_div_iff₀ two_pos hpos, one_mul, mul_comm]
    exact_mod_cast Iff.rfl
  have hhalf' : x = 1 / 2 ↔ 2 * (num % den) = den := by
    rw [hx, div_eq_div_iff hpos.ne' two_ne_zero, one_mul, mul_comm]
    exact_mod_cast Iff.rfl
  by_cases hup : den < 2 * (num % den) ∨ 2 * (num % den) = den ∧ num / den % 2 = 1
  · have habs : |(num : ℚ) / den - (num / den + 1 : ℕ)| = 1 - x := by
      have hdiff' : (num : ℚ) / den - (num / den + 1 : ℕ) = -(1 - x) := by
        push_cast
        linarith
      rw [hdiff', abs_neg, abs_of_pos (by linarith)]
    rw [nearestEven, if_pos hup]
    refine ⟨?_, ?_⟩
    · rw [habs]
      rcases hup with h | h
      · have := hhalf.mpr h
        linarith
      · have := hhalf'.mpr h.1
        linarith
    · intro h
      have hx' : x = 1 / 2 := by linarith
      have htie := hhalf'.mp hx'
      have hodd : num / den % 2 = 1 := by
        rcases hup with hgt | h
        · omega
        · exact h.2
      exact Nat.even_iff.mpr (by omega)
  · have habs : |(num : ℚ) / den - (num / den : ℕ)| = x := by rw [hdiff, abs_of_nonneg hnonneg]
    rw [nearestEven, if_neg hup]
    refine ⟨?_, ?_⟩
    · rw [habs]
      by_contra h
      exact hup (.inl (hhalf.mp (not_le.mp h)))
    · intro h
      have htie := hhalf'.mp (habs.symm.trans h)
      exact Nat.even_iff.mpr (by omega)

namespace Decimal

def value (d : Decimal) : ℚ :=
  d.coefficient * 10 ^ d.exponent

theorem isNearestEven_scaled (d : Decimal) (places : ℕ) :
    IsNearestEven (d.value * 10 ^ places) (d.scaled places) := by
  have hten : (10 : ℚ) ≠ 0 := by norm_num
  have hvalue : d.value * 10 ^ places = d.coefficient * (10 : ℚ) ^ (d.exponent + places) := by
    rw [value, mul_assoc, ← zpow_natCast, ← zpow_add₀ hten]
  rw [hvalue, scaled]
  by_cases he : 0 ≤ d.exponent + places
  · obtain ⟨k, hk⟩ := Int.eq_ofNat_of_zero_le he
    rw [if_pos he, hk, Int.toNat_natCast, zpow_natCast]
    have hcast : (d.coefficient : ℚ) * 10 ^ k = (d.coefficient * 10 ^ k : ℕ) := by push_cast; rfl
    rw [hcast]
    exact .natCast _
  · obtain ⟨k, hk⟩ := Int.eq_ofNat_of_zero_le (show 0 ≤ -(d.exponent + places) by omega)
    have hexp : d.exponent + places = -(k : ℤ) := by omega
    have hcast : (d.coefficient : ℚ) * 10 ^ (-(k : ℤ)) = d.coefficient / (10 ^ k : ℕ) := by
      rw [zpow_neg, zpow_natCast, div_eq_mul_inv]
      push_cast
      rfl
    rw [if_neg he, hk, Int.toNat_natCast, hexp, hcast]
    exact isNearestEven_nearestEven _ (Nat.pow_pos (by decide))

end Decimal

end MessageCatalog
