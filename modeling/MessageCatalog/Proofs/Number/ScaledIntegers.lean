import MessageCatalog.Proofs.Binary64.ShortestDecimal
import MessageCatalog.Proofs.Number.Sign

namespace MessageCatalog

namespace Binary64

/-- The double product of a natural number and a factor: the number is rounded to a double, and the product of
this double with the factor is rounded again. -/
structure IsProduct (n k r rank : ℕ) : Prop where
  number : BinaryFormat.double.IsNearest n r
  product : BinaryFormat.double.IsNearest (BinaryFormat.double.magnitude r * k) rank

variable {n k r rank : ℕ}

theorem isProduct_nearestRank (n k : ℕ) : IsProduct n k (BinaryFormat.double.nearestRank n 1)
    (BinaryFormat.double.nearestRank (units (BinaryFormat.double.nearestRank n 1) * k) (2 ^ 1074)) := by
  have hfirst := BinaryFormat.double.isNearest_nearestRank (by decide) n Nat.one_pos
  rw [Nat.cast_one, div_one] at hfirst
  refine ⟨hfirst, ?_⟩
  generalize BinaryFormat.double.nearestRank n 1 = r
  have hplaces : BinaryFormat.double.unitPlaces = 1074 := rfl
  have hsecond := BinaryFormat.double.isNearest_nearestRank (by decide) (units r * k) (Nat.two_pow_pos 1074)
  rw [Nat.cast_mul, Interval.cast_two_pow 1074, mul_div_right_comm] at hsecond
  rw [BinaryFormat.magnitude, hplaces]
  exact hsecond

def wordRank : ℕ :=
  1086 * 2 ^ 52

theorem magnitude_wordRank : BinaryFormat.double.magnitude wordRank = 2 ^ 63 := by
  have hmagnitude : BinaryFormat.double.magnitude wordRank = (2 ^ 52 * 2 ^ 11 : ℕ) :=
    BinaryFormat.double.magnitude_shift (by decide) (by decide) (by decide)
  exact hmagnitude.trans (Interval.cast_two_pow 63)

theorem wordRank_le_of_isProduct (h : IsProduct n k r rank) (hk : k = 100 ∨ k = 1000)
    (hn : 2 ^ 63 ≤ n * k) : wordRank ≤ rank := by
  obtain ⟨hr, hrank⟩ := h
  apply hrank.le_of_magnitude_le (by decide)
  rw [magnitude_wordRank]
  rcases hk with rfl | rfl
  · -- the least such integer is no double, but the double it is rounded to is greater
    have hbelow : BinaryFormat.double.magnitude (1078 * 2 ^ 52 + 5764607523034234) =
        (5764607523034234 * 2 ^ 4 : ℕ) := BinaryFormat.double.magnitude_shift (by decide) (by decide) (by decide)
    have hnext : BinaryFormat.double.magnitude (1078 * 2 ^ 52 + 5764607523034234 + 1) =
        (5764607523034235 * 2 ^ 4 : ℕ) := BinaryFormat.double.magnitude_shift (by decide) (by decide) (by decide)
    have hleast : 92233720368547759 ≤ n := by omega
    have hhalf : (92233720368547744 + 92233720368547760 : ℚ) < 2 * n := by
      have hleast' : (92233720368547759 : ℚ) ≤ n := by exact_mod_cast hleast
      linarith
    have hrank : 1078 * 2 ^ 52 + 5764607523034234 + 1 ≤ r :=
      hr.succ_le (by decide) (by rwa [hbelow, hnext])
    have hle := BinaryFormat.double.magnitude_le hrank
    rw [hnext] at hle
    push_cast at hle ⊢
    linarith
  · have hexact : BinaryFormat.double.magnitude (1075 * 2 ^ 52 + 4611686018427388) =
        (4611686018427388 * 2 ^ 1 : ℕ) := BinaryFormat.double.magnitude_shift (by decide) (by decide) (by decide)
    have hleast : 9223372036854776 ≤ n := by omega
    have hrank : 1075 * 2 ^ 52 + 4611686018427388 ≤ r := by
      apply hr.le_of_magnitude_le (by decide)
      rw [hexact]
      exact Nat.cast_le.mpr hleast
    have hle := BinaryFormat.double.magnitude_le hrank
    rw [hexact] at hle
    push_cast at hle ⊢
    linarith

theorem two_pow_lt_shortest (hrank : wordRank ≤ rank) (hmost : rank < infinityRank) :
    2 ^ 63 < (shortest .even rank).value := by
  rcases hrank.lt_or_eq with hlt | rfl
  · have hpos : 0 < wordRank := by decide
    have hreads := (isShortest_shortest (hpos.trans hlt) hmost .even).reads
    have hless := BinaryFormat.double.magnitude_lt hlt
    have hle := hreads.add_le hlt
    rw [magnitude_wordRank] at hle hless
    linarith
  · have hshortest : shortest .even wordRank = ⟨9223372036854776, 3⟩ := by decide +kernel
    rw [hshortest, Decimal.value]
    norm_num

theorem exists_shortest (hrank : wordRank ≤ rank) (hmost : rank < infinityRank) :
    IsShortest rank (shortest .even rank) ∧ ∃ m : ℕ, (shortest .even rank).value = m ∧ 2 ^ 63 < m := by
  have hpos : 0 < rank := Nat.lt_of_lt_of_le (by decide) hrank
  have hlarge : 10 ^ 16 ≤ BinaryFormat.double.magnitude rank := by
    have hle := BinaryFormat.double.magnitude_le hrank
    rw [magnitude_wordRank] at hle
    linarith
  obtain ⟨m, hm⟩ := exists_value_shortest hpos hlarge .even
  have hless := two_pow_lt_shortest hrank hmost
  rw [hm] at hless
  exact ⟨isShortest_shortest hpos hmost .even, m, hm, by exact_mod_cast hless⟩

end Binary64

theorem IsBody.value_eq {numerals : Numerals} {layout : DigitLayout} {d : Decimal} {cs : List Char}
    {b : DigitBody} {n : ℕ} (h : IsBody numerals layout d cs b) (hd : d.value = n) : b.value = n := by
  obtain ⟨rounded, hrounded, hvalue⟩ := h.rounded
  have hscale : (10 : ℚ) ^ layout.maxFraction ≠ 0 := by positivity
  have hcast : d.value * 10 ^ layout.maxFraction = (n * 10 ^ layout.maxFraction : ℕ) := by
    rw [hd]
    push_cast
    rfl
  rw [hcast] at hrounded
  rw [hvalue, hrounded.unique (.natCast _), ← hcast, hd, mul_div_cancel_right₀ _ hscale]

structure FitsWord (n : Int64) (k : ℕ) : Prop where
  least : -2 ^ 63 ≤ n.toInt * k
  less : n.toInt * k < 2 ^ 63

namespace Numeric

variable {n : Int64} {d : Decimal}

theorem value_of_fitsWord {k : ℕ} (h : FitsWord n k)
    (hd : ((integer n.toInt).scale k).magnitude? = some d) : d.value = (n.toInt * k).natAbs := by
  have hscale : (integer n.toInt).scale k = integer (n.toInt * k) := if_pos (.inr ⟨h.least, h.less⟩)
  rw [hscale] at hd
  cases hd
  rw [Decimal.value, Decimal.ofNat, zpow_zero, mul_one]

theorem natAbs_toInt_lt (n : Int64) : n.toInt.natAbs < 2 ^ 64 := by
  have hlow := n.le_toInt
  have hhigh := n.toInt_lt
  omega

theorem factor_of_not_fitsWord {scale : NumberScale} (h : ¬FitsWord n scale.factor) :
    (scale.factor = 100 ∨ scale.factor = 1000) ∧ 2 ^ 63 ≤ n.toInt.natAbs * scale.factor := by
  have hlow := n.le_toInt
  have hhigh := n.toInt_lt
  have hbeyond : n.toInt * scale.factor < -2 ^ 63 ∨ 2 ^ 63 ≤ n.toInt * scale.factor := by
    by_contra hnot
    exact h ⟨by omega, by omega⟩
  cases scale with
  | one =>
    simp only [NumberScale.factor] at hbeyond
    omega
  | percent =>
    refine ⟨.inl rfl, ?_⟩
    simp only [NumberScale.factor] at hbeyond ⊢
    omega
  | perMille =>
    refine ⟨.inr rfl, ?_⟩
    simp only [NumberScale.factor] at hbeyond ⊢
    omega

theorem exists_scale_of_not_fitsWord {scale : NumberScale} (h : ¬FitsWord n scale.factor) :
    ∃ r rank, Binary64.IsProduct n.toInt.natAbs scale.factor r rank ∧ Binary64.wordRank ≤ rank ∧
      rank < Binary64.infinityRank ∧
      (integer n.toInt).scale scale.factor = .double (.ofRank (n.toInt < 0) rank) := by
  obtain ⟨hk, hlarge⟩ := factor_of_not_fitsWord h
  have hproduct := Binary64.isProduct_nearestRank n.toInt.natAbs scale.factor
  have hmost := Binary64.scaledRank_lt (natAbs_toInt_lt n) (show scale.factor < 2 ^ 10 by omega)
  have hfloat : ¬(scale.factor = 1 ∨ -2 ^ 63 ≤ n.toInt * scale.factor ∧ n.toInt * scale.factor < 2 ^ 63) := by
    rintro (hone | ⟨hleast, hless⟩)
    · omega
    · exact h ⟨hleast, hless⟩
  refine ⟨_, _, hproduct, Binary64.wordRank_le_of_isProduct hproduct hk hlarge, hmost, ?_⟩
  rw [Numeric.scale, ← Binary64.scale_ofInt (natAbs_toInt_lt n)]
  exact if_neg hfloat

theorem magnitude?_ofRank {negative : Bool} {rank : ℕ} (h : rank < Binary64.infinityRank) :
    (double (.ofRank negative rank)).magnitude? = some (Binary64.shortest .even rank) := by
  rw [Binary64.val_signed_lt h]
  exact if_neg h.ne

end Numeric

namespace NumberPattern

variable {text : String} {p : NumberPattern}

theorem write_integer_scaled (h : parse text = .ok p) (l : Locale) (n : Int64) :
    ∃ d b body, p.write l (.integer n.toInt) =
        (p.frame l (n.toInt < 0)).1 ++ body ++ (p.frame l (n.toInt < 0)).2 ∧
      IsBody (.ofLocale l) p.layout d body.toList b ∧
      (FitsWord n p.scale.factor → b.value = (n.toInt * p.scale.factor).natAbs) ∧
      (¬FitsWord n p.scale.factor → ∃ r rank, Binary64.IsProduct n.toInt.natAbs p.scale.factor r rank ∧
        rank < Binary64.infinityRank ∧
        (Numeric.integer n.toInt).scale p.scale.factor = .double (.ofRank (n.toInt < 0) rank) ∧
        Binary64.IsShortest rank d ∧ b.value = d.value ∧ ∃ m : ℕ, b.value = m ∧ 2 ^ 63 < m) := by
  have hword := Numeric.natAbs_toInt_lt n
  obtain ⟨d, hd⟩ := Numeric.exists_magnitude (Numeric.isFinite_scale_integer hword p.scale)
  have hbody := isBody_write (Numerals.lawful_ofLocale l) (fraction_le_of_parse h) d
  refine ⟨d, _, _, ?_, hbody, fun hfits => ?_, fun hfits => ?_⟩
  · rw [write_eq, Numeric.isNegative_scale, Numeric.body_of_magnitude hd]
    rfl
  · exact hbody.value_eq (Numeric.value_of_fitsWord hfits hd)
  · obtain ⟨r, rank, hproduct, hrank, hmost, hscale⟩ := Numeric.exists_scale_of_not_fitsWord hfits
    obtain ⟨hshortest, m, hm, hless⟩ := Binary64.exists_shortest hrank hmost
    rw [hscale, Numeric.magnitude?_ofRank hmost] at hd
    cases hd
    have hvalue := hbody.value_eq hm
    exact ⟨r, rank, hproduct, hmost, hscale, hshortest, hvalue.trans hm.symm, m, hvalue, hless⟩

theorem write_integer_scaled_greatest :
    parse "#%" = .ok NumberStyle.perHundred ∧ ¬FitsWord Int64.maxValue 100 ∧
      NumberStyle.perHundred.write .germany (.integer Int64.maxValue.toInt) = "922337203685477600000%" ∧
      ∃ d b body, NumberStyle.perHundred.write .germany (.integer Int64.maxValue.toInt) =
          "" ++ body ++ "%" ∧
        IsBody (.ofLocale .germany) NumberStyle.perHundred.layout d body.toList b ∧
        ∃ r rank, Binary64.IsProduct Int64.maxValue.toInt.natAbs 100 r rank ∧ Binary64.IsShortest rank d ∧
          b.value = d.value := by
  have hparse : parse "#%" = .ok NumberStyle.perHundred := by decide +kernel
  have hlarge : ¬FitsWord Int64.maxValue 100 := by
    rintro ⟨-, hlt⟩
    exact absurd hlt (by decide +kernel)
  refine ⟨hparse, hlarge, by decide +kernel, ?_⟩
  obtain ⟨d, b, body, hwrite, hbody, -, hproduct⟩ :=
    write_integer_scaled hparse .germany Int64.maxValue
  obtain ⟨r, rank, hrank, -, -, hshortest, hvalue, -⟩ := hproduct hlarge
  have hframe : NumberStyle.perHundred.frame .germany (Int64.maxValue.toInt < 0) = ("", "%") := by
    decide +kernel
  rw [hframe] at hwrite
  exact ⟨d, b, body, hwrite, hbody, r, rank, hrank, hshortest, hvalue⟩

end NumberPattern

end MessageCatalog
