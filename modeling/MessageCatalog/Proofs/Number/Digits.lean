import MessageCatalog.Number.Digits
import MessageCatalog.Proofs.Decimal
import MessageCatalog.Proofs.Text.Numeral
import Mathlib.Algebra.Order.Floor.Semifield
import Mathlib.Data.List.TakeWhile
import Mathlib.Data.Nat.Digits.Defs

namespace MessageCatalog

theorem Text.digits_eq (n : ℕ) : Text.digits n = (Nat.digits 10 n).reverse := by
  induction n using Nat.strongRecOn with
  | ind n ih =>
    by_cases hn : n = 0
    · rw [hn, Text.digits_zero, Nat.digits_zero, List.reverse_nil]
    · rw [Text.digits_of_pos (by omega), ih (n / 10) (by omega),
        Nat.digits_def' (by decide) (Nat.pos_of_ne_zero hn), List.reverse_cons]

namespace DigitBody

def value (b : DigitBody) : ℚ :=
  Text.value (b.whole ++ b.fraction) / 10 ^ b.fraction.length

theorem value_zeros (whole fraction : List ℕ) (k : ℕ) :
    value ⟨whole, fraction ++ List.replicate k 0⟩ = value ⟨whole, fraction⟩ := by
  have hzeros : Text.value (List.replicate k 0) = 0 := by
    rw [← List.append_nil (List.replicate k 0), Text.value_replicate_zero]
    rfl
  rw [value, value, ← List.append_assoc, Text.value_append, hzeros, List.length_append,
    List.length_replicate, pow_add]
  push_cast
  rw [add_zero, mul_div_mul_right _ _ (by positivity)]

theorem exists_trim (ds : List ℕ) : ∃ kept k, ds = kept ++ List.replicate k 0 ∧ kept.getLast? ≠ some 0 ∧
    ∀ least, trimZeros least ds = kept ++ List.replicate (least - kept.length) 0 := by
  refine ⟨(ds.reverse.dropWhile (· == 0)).reverse, (ds.reverse.takeWhile (· == 0)).length, ?_, ?_,
    fun least => rfl⟩
  · have hzeros : ds.reverse.takeWhile (· == 0) =
        List.replicate (ds.reverse.takeWhile (· == 0)).length 0 := by
      apply List.eq_replicate_iff.mpr
      refine ⟨rfl, fun d hd => ?_⟩
      simpa using List.mem_takeWhile_imp hd
    rw [← List.reverse_replicate, ← hzeros, ← List.reverse_append, List.takeWhile_append_dropWhile,
      List.reverse_reverse]
  · rw [List.getLast?_reverse]
    intro h
    have hhead := List.head?_dropWhile_not (· == 0) ds.reverse
    rw [h] at hhead
    simp at hhead

variable {layout : DigitLayout} {d : Decimal}

theorem exists_fraction (layout : DigitLayout) (d : Decimal) : ∃ kept k,
    Text.fixedDigits layout.maxFraction (d.scaled layout.maxFraction % 10 ^ layout.maxFraction) =
      kept ++ List.replicate k 0 ∧
    kept.getLast? ≠ some 0 ∧
    (ofDecimal layout d).fraction = kept ++ List.replicate (layout.minFraction - kept.length) 0 := by
  obtain ⟨kept, k, hkept, hlast, htrim⟩ := exists_trim
    (Text.fixedDigits layout.maxFraction (d.scaled layout.maxFraction % 10 ^ layout.maxFraction))
  exact ⟨kept, k, hkept, hlast, htrim _⟩

theorem whole_eq : (ofDecimal layout d).whole = Text.padded (max 1 layout.minInteger)
    (Text.digits (d.scaled layout.maxFraction / 10 ^ layout.maxFraction)) := rfl

theorem value_ofDecimal :
    (ofDecimal layout d).value = d.scaled layout.maxFraction / 10 ^ layout.maxFraction := by
  have hlt : d.scaled layout.maxFraction % 10 ^ layout.maxFraction < 10 ^ layout.maxFraction :=
    Nat.mod_lt _ (Nat.pow_pos (by decide))
  obtain ⟨kept, k, hkept, -, hfraction⟩ := exists_fraction layout d
  have hbody : ofDecimal layout d = ⟨(ofDecimal layout d).whole, (ofDecimal layout d).fraction⟩ := rfl
  rw [hbody, hfraction, value_zeros, ← value_zeros _ kept k, ← hkept, value, Text.value_append, whole_eq,
    Text.value_padded, Text.value_digits, Text.value_fixedDigits hlt, Text.length_fixedDigits]
  congr 2
  rw [Nat.mul_comm]
  exact Nat.div_add_mod _ _

theorem length_fraction (h : layout.minFraction ≤ layout.maxFraction) :
    layout.minFraction ≤ (ofDecimal layout d).fraction.length ∧
      (ofDecimal layout d).fraction.length ≤ layout.maxFraction := by
  obtain ⟨kept, k, hkept, -, hfraction⟩ := exists_fraction layout d
  have hlength := congrArg List.length hkept
  rw [Text.length_fixedDigits, List.length_append, List.length_replicate] at hlength
  rw [hfraction, List.length_append, List.length_replicate]
  omega

theorem getLast?_fraction (h : layout.minFraction < (ofDecimal layout d).fraction.length) :
    (ofDecimal layout d).fraction.getLast? ≠ some 0 := by
  obtain ⟨kept, k, -, hlast, hfraction⟩ := exists_fraction layout d
  rw [hfraction, List.length_append, List.length_replicate] at h
  have hnone : layout.minFraction - kept.length = 0 := by omega
  rw [hfraction, hnone, List.replicate_zero, List.append_nil]
  exact hlast

theorem length_whole : (ofDecimal layout d).whole.length =
    max (max 1 layout.minInteger) (Nat.digits 10 ⌊(ofDecimal layout d).value⌋₊).length := by
  have hfloor : ⌊(ofDecimal layout d).value⌋₊ =
      d.scaled layout.maxFraction / 10 ^ layout.maxFraction := by
    rw [value_ofDecimal]
    exact_mod_cast Nat.floor_div_eq_div (K := ℚ) _ _
  rw [hfloor, whole_eq, Text.length_padded, Text.digits_eq, List.length_reverse]

theorem lt_of_mem_whole {n : ℕ} (h : n ∈ (ofDecimal layout d).whole) : n < 10 :=
  Text.lt_of_mem_padded (fun _ => Text.lt_of_mem_digits) h

theorem lt_of_mem_fraction {n : ℕ} (h : n ∈ (ofDecimal layout d).fraction) : n < 10 := by
  obtain ⟨kept, k, hkept, -, hfraction⟩ := exists_fraction layout d
  rw [hfraction] at h
  rcases List.mem_append.mp h with h | h
  · exact Text.lt_of_mem_fixedDigits (hkept ▸ List.mem_append_left _ h)
  · rw [List.eq_of_mem_replicate h]
    decide

end DigitBody

end MessageCatalog
