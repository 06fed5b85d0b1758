import MessageCatalog.Text.Integer

namespace MessageCatalog.Text

def lowerDigits : List Char :=
  ['0', '1', '2', '3', '4', '5', '6', '7', '8', '9', 'a', 'b', 'c', 'd', 'e', 'f']

def upperDigits : List Char :=
  ['0', '1', '2', '3', '4', '5', '6', '7', '8', '9', 'A', 'B', 'C', 'D', 'E', 'F']

def WritesDigit (d : Nat) (c : Char) : Prop :=
  lowerDigits[d]? = some c ∨ upperDigits[d]? = some c

def units (c : Char) : List Nat :=
  if c.toNat < 0x10000 then [c.toNat]
  else [0xD800 + (c.toNat - 0x10000) / 0x400, 0xDC00 + (c.toNat - 0x10000) % 0x400]

theorem hexValue?_of_writesDigit {d : Nat} {c : Char} (h : WritesDigit d c) : hexValue? c = some d := by
  have hlower : ∀ i : Fin 16, hexValue? (lowerDigits.get i) = some i.val := by decide
  have hupper : ∀ i : Fin 16, hexValue? (upperDigits.get i) = some i.val := by decide
  rcases h with h | h <;> obtain ⟨hd, rfl⟩ := List.getElem?_eq_some_iff.mp h
  · exact hlower ⟨d, hd⟩
  · exact hupper ⟨d, hd⟩

theorem mem_digits_of_writesDigit {d : Nat} {c : Char} (h : WritesDigit d c) :
    c ∈ lowerDigits ++ upperDigits :=
  List.mem_append.mpr (h.imp List.mem_of_getElem? List.mem_of_getElem?)

theorem unit?_of_writesDigits {a b c d : Nat} {p q r s : Char} (hp : WritesDigit a p)
    (hq : WritesDigit b q) (hr : WritesDigit c r) (hs : WritesDigit d s) :
    unit? p q r s = some (((a * 16 + b) * 16 + c) * 16 + d) := by
  simp only [unit?, hexValue?_of_writesDigit hp, hexValue?_of_writesDigit hq,
    hexValue?_of_writesDigit hr, hexValue?_of_writesDigit hs]
  rfl

theorem toNat_valid (c : Char) : c.toNat < 0xD800 ∨ 0xDFFF < c.toNat ∧ c.toNat < 0x110000 :=
  c.valid

theorem ofUnit?_toNat (c : Char) : ofUnit? c.toNat = some c := by
  have hc := toNat_valid c
  have hs : (isHighSurrogate c.toNat || isLowSurrogate c.toNat) = false := by
    simp only [isHighSurrogate, isLowSurrogate, Bool.or_eq_false_iff, Bool.and_eq_false_iff,
      decide_eq_false_iff_not]
    omega
  rw [ofUnit?, hs, if_neg Bool.false_ne_true, Char.ofNat_toNat]

theorem ofUnit?_of_high {n : Nat} (h : isHighSurrogate n = true) : ofUnit? n = none := by
  rw [ofUnit?, h, Bool.true_or, if_pos rfl]

theorem units_eq_pair {c : Char} {high low : Nat} (h : units c = [high, low]) :
    0x10000 ≤ c.toNat ∧ high = 0xD800 + (c.toNat - 0x10000) / 0x400 ∧
      low = 0xDC00 + (c.toNat - 0x10000) % 0x400 := by
  unfold units at h
  split at h
  · cases h
  · simp only [List.cons.injEq, and_true] at h
    exact ⟨by omega, h.1.symm, h.2.symm⟩

theorem units_eq_singleton {c : Char} {n : Nat} (h : units c = [n]) : n = c.toNat := by
  unfold units at h
  split at h
  · cases h
    rfl
  · cases h

theorem isHighSurrogate_of_units {c : Char} {high low : Nat} (h : units c = [high, low]) :
    isHighSurrogate high = true := by
  obtain ⟨hc, hh, -⟩ := units_eq_pair h
  have hv := toNat_valid c
  simp only [isHighSurrogate, Bool.and_eq_true, decide_eq_true_eq]
  omega

theorem isLowSurrogate_of_units {c : Char} {high low : Nat} (h : units c = [high, low]) :
    isLowSurrogate low = true := by
  obtain ⟨-, -, hl⟩ := units_eq_pair h
  simp only [isLowSurrogate, Bool.and_eq_true, decide_eq_true_eq]
  omega

theorem ofPair?_of_units {c : Char} {high low : Nat} (h : units c = [high, low]) :
    ofPair? high low = some c := by
  obtain ⟨hc, hh, hl⟩ := units_eq_pair h
  have hn : 0x10000 + (high - 0xD800) * 0x400 + (low - 0xDC00) = c.toNat := by omega
  rw [ofPair?, isHighSurrogate_of_units h, isLowSurrogate_of_units h, Bool.and_self, if_pos rfl, hn,
    Char.ofNat_toNat]

theorem lt_of_hexValue? {c : Char} {d : Nat} (h : hexValue? c = some d) : c.toNat < 103 := by
  unfold hexValue? at h
  split at h
  case isTrue hd =>
    simp only [Char.isDigit, Bool.and_eq_true, decide_eq_true_eq] at hd
    exact Nat.lt_of_le_of_lt hd.2 (by decide)
  case isFalse =>
    split at h
    case isTrue hc => exact Nat.lt_of_le_of_lt hc.2 (by decide)
    case isFalse =>
      split at h
      case isTrue hc => exact Nat.lt_of_le_of_lt hc.2 (by decide)
      case isFalse => cases h

theorem writesDigit_of_hexValue? {c : Char} {d : Nat} (h : hexValue? c = some d) : WritesDigit d c := by
  have hsmall : ∀ n : Fin 103, (hexValue? (Char.ofNat n)).all fun d =>
      lowerDigits[d]? = some (Char.ofNat n) ∨ upperDigits[d]? = some (Char.ofNat n) := by decide
  have hd := hsmall ⟨c.toNat, lt_of_hexValue? h⟩
  rw [Char.ofNat_toNat, h] at hd
  simpa [WritesDigit] using hd

theorem lt_of_writesDigit {d : Nat} {c : Char} (h : WritesDigit d c) : d < 16 := by
  rcases h with h | h <;> exact (List.getElem?_eq_some_iff.mp h).1

theorem toNat_ofNat_of_valid {n : Nat} (h : n < 0xD800 ∨ 0xDFFF < n ∧ n < 0x110000) :
    (Char.ofNat n).toNat = n := by
  have hvalid : n.isValidChar := h
  have hchar : Char.ofNat n = Char.ofNatAux n hvalid := dif_pos hvalid
  rw [hchar]
  rfl

theorem ofUnit?_eq_some {n : Nat} {c : Char} (hn : n < 0x10000) :
    ofUnit? n = some c ↔ units c = [n] := by
  constructor
  · intro h
    unfold ofUnit? at h
    split at h
    case isTrue => cases h
    case isFalse hs =>
      cases h
      have hvalid : n < 0xD800 ∨ 0xDFFF < n ∧ n < 0x110000 := by
        simp [isHighSurrogate, isLowSurrogate] at hs
        omega
      rw [units, toNat_ofNat_of_valid hvalid, if_pos hn]
  · intro h
    rw [units_eq_singleton h, ofUnit?_toNat]

theorem ofUnit?_eq_none {n : Nat} :
    ofUnit? n = none ↔ isHighSurrogate n = true ∨ isLowSurrogate n = true := by
  rw [ofUnit?, ← Bool.or_eq_true]
  split <;> simp_all

theorem exists_units_eq_pair {high low : Nat} (hh : isHighSurrogate high = true)
    (hl : isLowSurrogate low = true) : ∃ c, units c = [high, low] := by
  simp only [isHighSurrogate, isLowSurrogate, Bool.and_eq_true, decide_eq_true_eq] at hh hl
  have hn := toNat_ofNat_of_valid (n := 0x10000 + (high - 0xD800) * 0x400 + (low - 0xDC00)) (by omega)
  refine ⟨Char.ofNat (0x10000 + (high - 0xD800) * 0x400 + (low - 0xDC00)), ?_⟩
  have hhigh :
      0xD800 + (0x10000 + (high - 0xD800) * 0x400 + (low - 0xDC00) - 0x10000) / 0x400 = high := by
    omega
  have hlow :
      0xDC00 + (0x10000 + (high - 0xD800) * 0x400 + (low - 0xDC00) - 0x10000) % 0x400 = low := by
    omega
  rw [units, hn, if_neg (by omega), hhigh, hlow]
theorem surrogates_of_ofPair? {high low : Nat} {c : Char} (h : ofPair? high low = some c) :
    isHighSurrogate high = true ∧ isLowSurrogate low = true := by
  unfold ofPair? at h
  split at h
  case isTrue hs => exact Bool.and_eq_true_iff.mp hs
  case isFalse => cases h

end MessageCatalog.Text
