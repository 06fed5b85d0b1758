import MessageCatalog.Proofs.Locale.Currency
import MessageCatalog.Proofs.Number.Amount

namespace MessageCatalog

open Text (Mark occurrences)

def isSpelling (s : String) : Bool :=
  !s.toList.contains '-' && s.toList.any fun z => isAmountSign z && s.toList.count z == 1

theorem all_isSpelling : Currency.spellings.all isSpelling = true := by
  decide +kernel

theorem symbol_spec (l : Locale) : '-' ∉ (Currency.ofLocale l).symbol.toList ∧
    ∃ z, isAmountSign z = true ∧ (Currency.ofLocale l).symbol.toList.count z = 1 := by
  have hspelling := List.all_eq_true.mp all_isSpelling _ (Currency.symbol_mem_spellings l)
  obtain ⟨hminus, hany⟩ := Bool.and_eq_true_iff.mp hspelling
  obtain ⟨z, -, hz⟩ := List.any_eq_true.mp hany
  obtain ⟨hsign, hcount⟩ := Bool.and_eq_true_iff.mp hz
  exact ⟨by simpa using hminus, z, hsign, eq_of_beq hcount⟩

namespace NumberPattern

variable {m : Mark AffixSign} {l : Locale} {x : Numeric}

theorem isBody_body (hx : x.IsFinite) (l : Locale) (layout : DigitLayout)
    (hlayout : layout.minFraction ≤ layout.maxFraction) : ∃ d b, x.magnitude? = some d ∧
      IsBody (.ofLocale l) layout d (x.body layout (.ofLocale l)).toList b := by
  obtain ⟨d, hd⟩ := Numeric.exists_magnitude hx
  rw [Numeric.body_of_magnitude hd]
  exact ⟨d, _, hd, isBody_write (Numerals.lawful_ofLocale l) hlayout d⟩

def isPatternOf (m : Mark AffixSign) (scale : NumberScale) (layout : DigitLayout) (pattern : String) : Bool :=
  match parse pattern with
  | .ok p => decide (p.scale = scale ∧ p.layout = layout ∧ p.positive.Bears m 0) &&
      p.negative.all fun a => decide (a.Bears m 1)
  | .error _ => false

theorem exists_of_isPatternOf {scale : NumberScale} {layout : DigitLayout} {pattern : String}
    (h : isPatternOf m scale layout pattern = true) :
    ∃ p, parse pattern = .ok p ∧ p.scale = scale ∧ p.layout = layout ∧ p.IsMarked m := by
  rw [isPatternOf] at h
  cases hparse : parse pattern with
  | error problem =>
    rw [hparse] at h
    cases h
  | ok p =>
    rw [hparse] at h
    obtain ⟨hdecided, hnegative⟩ := Bool.and_eq_true_iff.mp h
    obtain ⟨hscale, hlayout, hpositive⟩ := of_decide_eq_true hdecided
    refine ⟨p, rfl, hscale, hlayout, hpositive, fun a ha => ?_⟩
    rw [ha] at hnegative
    exact of_decide_eq_true hnegative

end NumberPattern

namespace NumberStyle

open NumberPattern

def currencyLayout (c : Currency) : DigitLayout :=
  ⟨1, c.fractionDigits, c.fractionDigits, true⟩

theorem all_currencyPatterns : ("¤\u00a0#,##0.00" :: currencyPatterns.map (·.2)).all
    (isPatternOf (.item .currency) .one ⟨1, 2, 2, true⟩) = true := by
  decide +kernel

theorem all_percentPatterns : ("#,##0%" :: percentPatterns.map (·.2)).all
    (isPatternOf (.char '%') .percent ⟨1, 0, 0, true⟩) = true := by
  decide +kernel

theorem exists_currencyPattern (l : Locale) : ∃ p, parse (currencyPattern l) = .ok p ∧ p.scale = .one ∧
    p.layout = ⟨1, 2, 2, true⟩ ∧ p.IsMarked (.item .currency) :=
  exists_of_isPatternOf (List.all_eq_true.mp all_currencyPatterns _ (Locale.getD_row?_mem _ _ l))

theorem exists_percentPattern (l : Locale) : ∃ p, parse (percentPattern l) = .ok p ∧ p.scale = .percent ∧
    p.layout = ⟨1, 0, 0, true⟩ ∧ p.IsMarked (.char '%') :=
  exists_of_isPatternOf (List.all_eq_true.mp all_percentPatterns _ (Locale.getD_row?_mem _ _ l))

variable {x : Numeric} {l : Locale}

theorem currency_write (hx : x.IsFinite) (l : Locale) :
    ∃ before body after d b, x.magnitude? = some d ∧
      IsAmount (Currency.ofLocale l).symbol.toList x (currency.write l x).toList before body after ∧
      IsBody (.ofLocale l) (currencyLayout (Currency.ofLocale l)) d body b ∧
      b.fraction.length = (Currency.ofLocale l).fractionDigits := by
  obtain ⟨p, hparse, hscale, hlayout, hmarked⟩ := exists_currencyPattern l
  obtain ⟨hminus, z, hsign, hz⟩ := symbol_spec l
  let q : NumberPattern := { p with layout := currencyLayout (Currency.ofLocale l) }
  have hwrite : currency.write l x = q.write l x := by
    simp only [write, localePattern, hparse, hlayout]
    rfl
  have hq : q.IsMarked (.item .currency) := ⟨hmarked.positive, hmarked.negative⟩
  have hbody : (x.scale q.scale.factor).body q.layout (.ofLocale l) =
      x.body (currencyLayout (Currency.ofLocale l)) (.ofLocale l) := by
    have hone : q.scale = .one := hscale
    rw [hone, NumberScale.factor, Numeric.scale_one]
  obtain ⟨before, after, hamount⟩ := isAmount_write hq (fun h => by cases h) hx hz hsign hminus
  rw [← hwrite, hbody] at hamount
  obtain ⟨d, b, hd, hb⟩ := isBody_body hx l (currencyLayout (Currency.ofLocale l)) (Nat.le_refl _)
  exact ⟨before, _, after, d, b, hd, hamount, hb, Nat.le_antisymm hb.most hb.least⟩

theorem percent_write (hx : x.IsFinite) (l : Locale) :
    ∃ before body after, IsAmount ['%'] x (percent.write l x).toList before body after ∧
      ((∃ d b, (x.scale 100).magnitude? = some d ∧ IsBody (.ofLocale l) ⟨1, 0, 0, true⟩ d body b ∧
          b.fraction = []) ∨ ¬(x.scale 100).IsFinite ∧ body = ['∞']) := by
  obtain ⟨p, hparse, hscale, hlayout, hmarked⟩ := exists_percentPattern l
  have hwrite : percent.write l x = p.write l x := by
    simp only [write, localePattern, hparse]
  have hminus := (symbol_spec l).1
  obtain ⟨before, after, hamount⟩ :=
    isAmount_write (z := '%') hmarked (fun h => by cases h) hx rfl rfl hminus
  rw [← hwrite, hscale, hlayout, NumberScale.factor] at hamount
  refine ⟨before, _, after, hamount, ?_⟩
  by_cases hfinite : (x.scale 100).IsFinite
  · obtain ⟨d, b, hd, hb⟩ := isBody_body hfinite l ⟨1, 0, 0, true⟩ (Nat.le_refl 0)
    exact .inl ⟨d, b, hd, hb, List.eq_nil_of_length_eq_zero (Nat.le_zero.mp hb.most)⟩
  · have hinfinite := (Numeric.body_scale hx ⟨1, 0, 0, true⟩ (.ofLocale l)).resolve_left hfinite
    exact .inr ⟨hfinite, congrArg String.toList hinfinite⟩

def netherlands : Locale :=
  ⟨⟨"nl", rfl⟩, some ⟨"NL", rfl⟩⟩

end NumberStyle

end MessageCatalog
