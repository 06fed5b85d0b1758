import MessageCatalog.Number.Style
import MessageCatalog.Proofs.Number.Digits
import MessageCatalog.Proofs.Number.Reading
import MessageCatalog.Proofs.Traversal

namespace MessageCatalog

/-- The characters are digits of the decimal in the layout: they read as it, rounded, with no more and no
fewer digits than the layout asks for. -/
structure IsBody (numerals : Numerals) (layout : DigitLayout) (d : Decimal) (cs : List Char)
    (b : DigitBody) : Prop where
  reads : numerals.read? cs = some b
  rounded : ∃ n, IsNearestEven (d.value * 10 ^ layout.maxFraction) n ∧
    b.value = n / 10 ^ layout.maxFraction
  least : layout.minFraction ≤ b.fraction.length
  most : b.fraction.length ≤ layout.maxFraction
  trimmed : layout.minFraction < b.fraction.length → b.fraction.getLast? ≠ some 0
  point : numerals.point ∈ cs ↔ b.fraction ≠ []
  whole : b.whole.length = max (max 1 layout.minInteger) (Nat.digits 10 ⌊b.value⌋₊).length
  groups : ∀ before after, cs = before ++ numerals.separator :: after →
    layout.grouped = true ∧ numerals.point ∉ before ∧
      numerals.firstGroup ≤ numerals.wholeDigits after ∧
        numerals.nextGroup ∣ numerals.wholeDigits after - numerals.firstGroup

theorem isBody_write {numerals : Numerals} (hn : numerals.Lawful) {layout : DigitLayout}
    (hlayout : layout.minFraction ≤ layout.maxFraction) (d : Decimal) :
    IsBody numerals layout d ((DigitBody.ofDecimal layout d).write numerals layout.grouped).toList
      (.ofDecimal layout d) := by
  have hwhole : ∀ n ∈ (DigitBody.ofDecimal layout d).whole, n < 10 := fun _ => DigitBody.lt_of_mem_whole
  have hfraction : ∀ n ∈ (DigitBody.ofDecimal layout d).fraction, n < 10 := fun _ =>
    DigitBody.lt_of_mem_fraction
  refine
    { reads := DigitBody.read?_write hn hwhole hfraction
      rounded := ⟨d.scaled layout.maxFraction, d.isNearestEven_scaled _, DigitBody.value_ofDecimal⟩
      least := (DigitBody.length_fraction hlayout).1
      most := (DigitBody.length_fraction hlayout).2
      trimmed := DigitBody.getLast?_fraction
      point := DigitBody.point_mem_write_iff hn hwhole
      whole := DigitBody.length_whole
      groups := ?_ }
  intro before after h
  obtain ⟨hgrouped, hpoint, hseparates⟩ := DigitBody.separates_of_write_eq hn hwhole hfraction h
  rw [Numerals.separates, Bool.and_eq_true, decide_eq_true_eq, beq_iff_eq] at hseparates
  exact ⟨hgrouped, hpoint, hseparates.1, Nat.dvd_of_mod_eq_zero hseparates.2⟩

def Binary64.negate : Binary64 → Binary64
  | nan => nan
  | signed negative rank => signed (!negative) rank

namespace Numeric

def IsFinite : Numeric → Prop
  | integer _ => True
  | double x => x.isFinite = true

def negate : Numeric → Numeric
  | integer n => integer (-n)
  | double x => double x.negate

variable {x : Numeric} {layout : DigitLayout} {numerals : Numerals} {d : Decimal}

theorem exists_magnitude (h : x.IsFinite) : ∃ d, x.magnitude? = some d := by
  match x, h with
  | integer n, _ => exact ⟨_, rfl⟩
  | double (.signed negative rank), h =>
    have hrank : rank.val ≠ Binary64.infinityRank := by
      have hlt : rank.val < Binary64.infinityRank := of_decide_eq_true h
      omega
    exact ⟨_, if_neg hrank⟩
  | double .nan, h => cases h

theorem body_of_magnitude (h : x.magnitude? = some d) :
    x.body layout numerals = (DigitBody.ofDecimal layout d).write numerals layout.grouped := by
  unfold body
  split
  case h_1 _ d' hd =>
    rw [h] at hd
    cases hd
    rfl
  case h_2 hnone =>
    rw [h] at hnone
    cases hnone
  case h_3 hnone =>
    rw [h] at hnone
    cases hnone

theorem body_of_infinite {negative : Bool} {rank : Fin (BinaryFormat.double.infinityRank + 1)}
    (h : rank.val = Binary64.infinityRank) :
    (double (.signed negative rank)).body layout numerals = "∞" := by
  have hnone : (double (.signed negative rank)).magnitude? = none := if_pos h
  unfold body
  split
  case h_1 hd =>
    rw [hnone] at hd
    cases hd
  case h_2 heq _ => cases heq
  case h_3 => rfl

theorem body_negate (x : Numeric) : x.negate.body layout numerals = x.body layout numerals := by
  match x with
  | integer n =>
    have hmagnitude : (integer (-n)).magnitude? = some (.ofNat n.natAbs) := by
      rw [magnitude?, Int.natAbs_neg]
    have hmagnitude' : (integer n).magnitude? = some (.ofNat n.natAbs) := rfl
    rw [negate, body_of_magnitude hmagnitude, body_of_magnitude hmagnitude']
  | double .nan => rfl
  | double (.signed negative rank) =>
    by_cases h : rank.val = Binary64.infinityRank
    · rw [negate, Binary64.negate, body_of_infinite h, body_of_infinite h]
    · have hmagnitude : ∀ s, (double (.signed s rank)).magnitude? = some (Binary64.shortest .even rank) :=
        fun _ => if_neg h
      rw [negate, Binary64.negate, body_of_magnitude (hmagnitude _), body_of_magnitude (hmagnitude _)]

theorem scale_one (x : Numeric) : x.scale 1 = x := by
  cases x <;> simp [scale]

theorem fits_neg_iff (scale : NumberScale) (n : Int) :
    (scale.factor = 1 ∨ -2 ^ 63 ≤ -n * scale.factor ∧ -n * scale.factor < 2 ^ 63) ↔
      (scale.factor = 1 ∨ -2 ^ 63 ≤ n * scale.factor ∧ n * scale.factor < 2 ^ 63) := by
  cases scale with
  | one => exact ⟨fun _ => .inl rfl, fun _ => .inl rfl⟩
  | percent =>
    simp only [NumberScale.factor]
    omega
  | perMille =>
    simp only [NumberScale.factor]
    omega

theorem negate_double_scale (x : Binary64) (k : Nat) : x.negate.scale k = (x.scale k).negate := by
  cases x with
  | nan => rfl
  | signed negative rank =>
    rw [Binary64.negate, Binary64.scale, Binary64.scale]
    split <;> rfl

theorem ofInt_neg {n : Int} (hn : n ≠ 0) : Binary64.ofInt (-n) = (Binary64.ofInt n).negate := by
  have hsign : decide (-n < 0) = !decide (n < 0) := by
    rw [← decide_not, decide_eq_decide]
    omega
  rw [Binary64.ofInt, Binary64.ofInt, Int.natAbs_neg, hsign]
  rfl

theorem scale_negate (x : Numeric) (scale : NumberScale) :
    x.negate.scale scale.factor = (x.scale scale.factor).negate := by
  cases x with
  | integer n =>
    rw [negate, Numeric.scale, Numeric.scale, if_congr (fits_neg_iff scale n) rfl rfl]
    split
    case isTrue => rw [negate, Int.neg_mul]
    case isFalse hfits =>
      have hn : n ≠ 0 := by
        rintro rfl
        simp at hfits
      rw [negate, ofInt_neg hn, negate_double_scale]
  | double x =>
    rw [negate, Numeric.scale, Numeric.scale, negate_double_scale]
    split <;> rfl

end Numeric

theorem DigitLayout.fraction_le_of_parse {cs : List Char} {layout : DigitLayout}
    (h : DigitLayout.parse cs = .ok layout) : layout.minFraction ≤ layout.maxFraction := by
  simp only [DigitLayout.parse] at h
  split at h
  case isTrue => cases h
  split at h
  case isTrue => cases h
  split at h
  case isTrue => cases h
  split at h
  case h_1 => cases h
  case h_2 =>
    cases h
    exact min_le_min_right _ List.count_le_length

theorem NumberPattern.fraction_le_of_parse {text : String} {p : NumberPattern}
    (h : NumberPattern.parse text = .ok p) : p.layout.minFraction ≤ p.layout.maxFraction := by
  obtain ⟨scanned, -, h⟩ := Traversal.bind_eq_ok_iff.mp h
  obtain ⟨negative, -, h⟩ := Traversal.bind_eq_ok_iff.mp h
  obtain ⟨layout, hlayout, h⟩ := Traversal.bind_eq_ok_iff.mp h
  cases h
  exact DigitLayout.fraction_le_of_parse hlayout

def NumberPattern.frame (p : NumberPattern) (l : Locale) (negative : Bool) : String × String :=
  let around (sign : String) (affixes : Affixes) :=
    (sign ++ affixText (.ofLocale l) affixes.before, affixText (.ofLocale l) affixes.after)
  if negative then (p.negative.map (around "")).getD (around "-" p.positive) else around "" p.positive

theorem NumberPattern.write_eq (p : NumberPattern) (l : Locale) (x : Numeric) :
    p.write l x = (p.frame l (x.scale p.scale.factor).isNegative).1 ++
      (x.scale p.scale.factor).body p.layout (.ofLocale l) ++
        (p.frame l (x.scale p.scale.factor).isNegative).2 := by
  rw [NumberPattern.write, NumberPattern.frame]
  cases (x.scale p.scale.factor).isNegative <;> cases p.negative <;> simp [String.append_assoc]

def signFrame (negative : Bool) : String × String :=
  (if negative then "-" else "", "")

namespace NumberStyle

inductive Sets (l : Locale) :
    NumberStyle → DigitLayout → NumberScale → (Bool → String × String) → Prop
  | default : Sets l .default .default .one signFrame
  | integer : Sets l .integer .integer .one signFrame
  | pattern {text : String} {p : NumberPattern} (h : NumberPattern.parse text = .ok p) :
    Sets l (.pattern p) p.layout p.scale (p.frame l)

variable {l : Locale} {style : NumberStyle} {layout : DigitLayout} {scale : NumberScale}
  {frame : Bool → String × String}

theorem write_of_sets (h : Sets l style layout scale frame) (x : Numeric) :
    style.write l x = (frame (x.scale scale.factor).isNegative).1 ++
      (x.scale scale.factor).body layout (.ofLocale l) ++
        (frame (x.scale scale.factor).isNegative).2 := by
  cases h with
  | default =>
    rw [NumberScale.factor, Numeric.scale_one, write, Numeric.write, signFrame, String.append_empty]
  | integer =>
    rw [NumberScale.factor, Numeric.scale_one, write, Numeric.write, signFrame, String.append_empty]
  | pattern _ => exact NumberPattern.write_eq _ l x

theorem fraction_le_of_sets (h : Sets l style layout scale frame) :
    layout.minFraction ≤ layout.maxFraction := by
  cases h with
  | default => decide
  | integer => decide
  | pattern h => exact NumberPattern.fraction_le_of_parse h

theorem write_reads_back (h : Sets l style layout scale frame) {x : Numeric}
    (hx : (x.scale scale.factor).IsFinite) :
    ∃ d b body, (x.scale scale.factor).magnitude? = some d ∧
      IsBody (.ofLocale l) layout d body.toList b ∧
      style.write l x = (frame (x.scale scale.factor).isNegative).1 ++ body ++
        (frame (x.scale scale.factor).isNegative).2 ∧
      style.write l x.negate = (frame (x.negate.scale scale.factor).isNegative).1 ++ body ++
        (frame (x.negate.scale scale.factor).isNegative).2 := by
  obtain ⟨d, hd⟩ := Numeric.exists_magnitude hx
  refine ⟨d, .ofDecimal layout d, (DigitBody.ofDecimal layout d).write (.ofLocale l) layout.grouped, hd,
    isBody_write (Numerals.lawful_ofLocale l) (fraction_le_of_sets h) d, ?_, ?_⟩
  · rw [write_of_sets h, Numeric.body_of_magnitude hd]
  · rw [write_of_sets h, Numeric.scale_negate, Numeric.body_negate, Numeric.body_of_magnitude hd]

def pricePattern : NumberPattern :=
  ⟨⟨[], []⟩, none, ⟨1, 2, 3, true⟩, .one⟩

theorem parse_pricePattern : NumberPattern.parse "#,##0.00#" = .ok pricePattern := by
  decide +kernel

def halfway : Numeric :=
  .double (.ofRank false (BinaryFormat.double.nearestRank 12345678125 10000))

theorem write_halfway_reads_back :
    ∃ d b body, (halfway.scale 1).magnitude? = some d ∧
      IsBody (.ofLocale .germany) pricePattern.layout d body.toList b ∧
      (pattern pricePattern).write .germany halfway =
        (pricePattern.frame .germany (halfway.scale 1).isNegative).1 ++ body ++
          (pricePattern.frame .germany (halfway.scale 1).isNegative).2 ∧
      (pattern pricePattern).write .germany halfway.negate =
        (pricePattern.frame .germany (halfway.negate.scale 1).isNegative).1 ++ body ++
          (pricePattern.frame .germany (halfway.negate.scale 1).isNegative).2 := by
  have hfinite : (Binary64.ofRank false (BinaryFormat.double.nearestRank 12345678125 10000)).isFinite := by
    decide +kernel
  exact write_reads_back (.pattern parse_pricePattern) hfinite

def perHundred : NumberPattern :=
  ⟨⟨[], [.text "%"]⟩, none, ⟨0, 0, 0, false⟩, .percent⟩

def greatest : Numeric :=
  .double (.ofRank false (Binary64.infinityRank - 1))

theorem overflow_not_digits :
    NumberPattern.parse "#%" = .ok perHundred ∧ greatest.IsFinite ∧
      (pattern perHundred).write .germany greatest = "∞%" ∧
      ¬∃ d b body, "∞%" = (perHundred.frame .germany false).1 ++ body ++
        (perHundred.frame .germany false).2 ∧
        IsBody (.ofLocale .germany) perHundred.layout d body.toList b := by
  have hfinite : (Binary64.ofRank false (Binary64.infinityRank - 1)).isFinite := by decide +kernel
  refine ⟨by decide +kernel, hfinite, by decide +kernel, ?_⟩
  rintro ⟨d, b, body, hbody, h⟩
  have hframe : perHundred.frame .germany false = ("", "%") := by decide +kernel
  have hchars : ['∞'] ++ ['%'] = body.toList ++ ['%'] := by
    simpa [hframe] using congrArg String.toList hbody
  have hreads := h.reads
  rw [← List.append_cancel_right hchars] at hreads
  have hnone : (Numerals.ofLocale .germany).read? ['∞'] = none := by decide +kernel
  rw [hnone] at hreads
  cases hreads

end NumberStyle

end MessageCatalog
