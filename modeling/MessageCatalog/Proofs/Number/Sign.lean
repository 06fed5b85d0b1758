import MessageCatalog.Proofs.Binary64.Rounding
import MessageCatalog.Proofs.Number.Body

/-!
The sign of a number in its text. Scaling keeps the sign, and a number and its negation have the same
digits; so a pattern with affixes of its own for negative numbers shows the sign by these alone, and does
not if they make the same text around the digits.
-/

namespace MessageCatalog

namespace Numeric

theorem isNegative_scale (x : Numeric) (scale : NumberScale) :
    (x.scale scale.factor).isNegative = x.isNegative := by
  have hpos : 0 < scale.factor := by cases scale <;> decide
  cases x with
  | integer n =>
    rw [Numeric.scale]
    split
    case isTrue =>
      have hsign : n * (scale.factor : Int) < 0 ↔ n < 0 := by
        constructor <;> intro h <;> nlinarith
      simp [isNegative, hsign]
    case isFalse =>
      have hscale := Binary64.isNegative_scale (Binary64.ofInt n) hpos
      rw [Binary64.isNegative_ofInt] at hscale
      exact hscale
  | double x =>
    rw [Numeric.scale, isNegative, isNegative]
    split
    case isTrue => rfl
    case isFalse => exact Binary64.isNegative_scale x hpos

theorem isFinite_scale_integer {n : Int} (h : n.natAbs < 2 ^ 64) (scale : NumberScale) :
    ((integer n).scale scale.factor).IsFinite := by
  rw [Numeric.scale]
  split
  case isTrue => trivial
  case isFalse => exact Binary64.isFinite_scale_ofInt h (by cases scale <;> decide)

end Numeric

/-- The second pair of texts is the first one with a part taken from the text behind to the text before,
and the digits between them repeat so that this does not show. -/
def Shifts (digits : List Char) (p q : List Char × List Char) : Prop :=
  ∃ x y, q.1 = p.1 ++ x ∧ p.2 = y ++ q.2 ∧ x ++ digits = digits ++ y

theorem shifts_refl (digits : List Char) (p : List Char × List Char) : Shifts digits p p :=
  ⟨[], [], (List.append_nil _).symm, rfl, (List.append_nil _).symm⟩

theorem Shifts.append_eq {digits : List Char} {p q : List Char × List Char} (h : Shifts digits p q) :
    p.1 ++ digits ++ p.2 = q.1 ++ digits ++ q.2 := by
  obtain ⟨x, y, hq, hp, hxy⟩ := h
  rw [hq, hp, List.append_assoc p.1 x, hxy]
  simp only [List.append_assoc]

theorem shifts_of_append {digits x after after' : List Char}
    (h : digits ++ after = x ++ digits ++ after') : ∃ y, after = y ++ after' ∧ x ++ digits = digits ++ y := by
  rcases List.append_eq_append_iff.mp h with ⟨y, hxy, hafter⟩ | ⟨z, hdigits, hafter⟩
  · exact ⟨y, hafter, hxy⟩
  · -- the digits are as long as themselves with more around them, so there is no more
    have hlength := congrArg List.length hdigits
    simp only [List.length_append] at hlength
    have hx : x = [] := List.eq_nil_of_length_eq_zero (by omega)
    have hz : z = [] := List.eq_nil_of_length_eq_zero (by omega)
    rw [hx] at hdigits ⊢
    rw [hz, List.nil_append] at hafter
    exact ⟨[], hafter.symm, (List.append_nil _).symm⟩

theorem append_eq_iff_shifts {digits : List Char} {p q : List Char × List Char} :
    p.1 ++ digits ++ p.2 = q.1 ++ digits ++ q.2 ↔ Shifts digits p q ∨ Shifts digits q p := by
  constructor
  · intro h
    simp only [List.append_assoc] at h
    rcases List.append_eq_append_iff.mp h with ⟨x, hq, hrest⟩ | ⟨x, hp, hrest⟩
    · obtain ⟨y, hafter, hxy⟩ := shifts_of_append (hrest.trans (List.append_assoc _ _ _).symm)
      exact .inl ⟨x, y, hq, hafter, hxy⟩
    · obtain ⟨y, hafter, hxy⟩ := shifts_of_append (hrest.trans (List.append_assoc _ _ _).symm)
      exact .inr ⟨x, y, hp, hafter, hxy⟩
  · rintro (h | h)
    · exact h.append_eq
    · exact h.append_eq.symm

theorem Shifts.eq_or_mem {digits : List Char} {c : Char} {p q : List Char × List Char}
    (h : Shifts digits p q) (hc : digits.head? = some c) : p = q ∨ c ∈ q.1 := by
  obtain ⟨x, y, hq, hp, hxy⟩ := h
  cases x with
  | nil =>
    have hy : y = [] := by simpa using hxy
    left
    rw [hy, List.nil_append] at hp
    rw [List.append_nil] at hq
    exact Prod.ext hq.symm hp
  | cons a x =>
    right
    obtain ⟨rest, rfl⟩ := List.head?_eq_some_iff.mp hc
    rw [hq, (List.cons.inj hxy).1]
    exact List.mem_append_right _ List.mem_cons_self

namespace DigitBody

theorem head?_write (layout : DigitLayout) (d : Decimal) (numerals : Numerals) (grouped : Bool) :
    ∃ n < 10, ((ofDecimal layout d).write numerals grouped).toList.head? = some (numerals.digit n) := by
  have hpos : 0 < (ofDecimal layout d).whole.length := by
    rw [length_whole]
    omega
  obtain ⟨n, ns, hwhole⟩ := List.exists_cons_of_length_pos hpos
  have hn : n ∈ (ofDecimal layout d).whole := hwhole ▸ List.mem_cons_self
  refine ⟨n, lt_of_mem_whole hn, ?_⟩
  rw [toList_write, hwhole, Numerals.whole]
  split
  case isTrue =>
    rw [Numerals.groups]
    split <;> rfl
  case isFalse => rfl

end DigitBody

namespace NumberPattern

def texts (l : Locale) (a : Affixes) : List Char × List Char :=
  ((affixText (.ofLocale l) a.before).toList, (affixText (.ofLocale l) a.after).toList)

def HoldsDigit (l : Locale) (a : Affixes) : Prop :=
  ∃ d, d < 10 ∧
    ((Numerals.ofLocale l).digit d ∈ (texts l a).1 ∨ (Numerals.ofLocale l).digit d ∈ (texts l a).2)

instance (l : Locale) (a : Affixes) : Decidable (HoldsDigit l a) :=
  Nat.decidableExistsLT _

variable (p : NumberPattern) (l : Locale)

theorem frame_positive : p.frame l false =
    (String.ofList (texts l p.positive).1, String.ofList (texts l p.positive).2) := by
  simp [frame, texts]

theorem frame_negative {a : Affixes} (h : p.negative = some a) :
    p.frame l true = (String.ofList (texts l a).1, String.ofList (texts l a).2) := by
  simp [frame, texts, h]

theorem frame_minus (h : p.negative = none) :
    p.frame l true = ("-" ++ (p.frame l false).1, (p.frame l false).2) := by
  simp [frame, h]

theorem write_of_nonneg {x : Numeric} (hx : x.isNegative = false) :
    (p.write l x).toList = (texts l p.positive).1 ++
      ((x.scale p.scale.factor).body p.layout (.ofLocale l)).toList ++ (texts l p.positive).2 := by
  rw [write_eq, Numeric.isNegative_scale, hx, frame_positive]
  simp

theorem write_negate_of_affixes {x : Numeric} (hx : x.negate.isNegative = true) {a : Affixes}
    (ha : p.negative = some a) :
    (p.write l x.negate).toList = (texts l a).1 ++
      ((x.scale p.scale.factor).body p.layout (.ofLocale l)).toList ++ (texts l a).2 := by
  rw [write_eq, Numeric.isNegative_scale, hx, frame_negative p l ha, Numeric.scale_negate,
    Numeric.body_negate]
  simp

theorem write_negate_of_none {x : Numeric} (hx : x.isNegative = false)
    (hx' : x.negate.isNegative = true) (ha : p.negative = none) :
    p.write l x.negate = "-" ++ p.write l x := by
  rw [write_eq, write_eq, Numeric.isNegative_scale, Numeric.isNegative_scale, hx, hx',
    frame_minus p l ha, Numeric.scale_negate, Numeric.body_negate]
  simp only [String.append_assoc]

theorem write_eq_write_negate_iff {x : Numeric} (hx : x.isNegative = false)
    (hx' : x.negate.isNegative = true) :
    p.write l x = p.write l x.negate ↔ ∃ a, p.negative = some a ∧
      let digits := ((x.scale p.scale.factor).body p.layout (.ofLocale l)).toList
      (Shifts digits (texts l p.positive) (texts l a) ∨ Shifts digits (texts l a) (texts l p.positive)) := by
  cases ha : p.negative with
  | none =>
    rw [write_negate_of_none p l hx hx' ha]
    simp only [reduceCtorEq, false_and, exists_false, iff_false]
    intro h
    have hlength := congrArg String.length h
    rw [String.length_append] at hlength
    have hone : "-".length = 1 := rfl
    omega
  | some a =>
    rw [← String.toList_inj, write_of_nonneg p l hx, write_negate_of_affixes p l hx' ha,
      append_eq_iff_shifts]
    simp

theorem shifts_iff_eq {digits : List Char} {d : Nat} (hd : d < 10)
    (hdigits : digits.head? = some ((Numerals.ofLocale l).digit d)) {a b : Affixes}
    (ha : ¬HoldsDigit l a) (hb : ¬HoldsDigit l b) :
    Shifts digits (texts l a) (texts l b) ∨ Shifts digits (texts l b) (texts l a) ↔
      texts l a = texts l b := by
  constructor
  · rintro (h | h)
    · rcases h.eq_or_mem hdigits with h | hmem
      · exact h
      · exact absurd ⟨d, hd, .inl hmem⟩ hb
    · rcases h.eq_or_mem hdigits with h | hmem
      · exact h.symm
      · exact absurd ⟨d, hd, .inl hmem⟩ ha
  · intro h
    rw [h]
    exact .inl (shifts_refl _ _)

/-- A positive integer and its negation are written with the same digits. Without affixes for negative
numbers a minus sign stands before the text of the negation. With such affixes they stand in the place of
the others, and the two texts are equal exactly if the affixes make the same text around the digits; this
takes equal affixes unless one of them holds a digit. -/
theorem write_neg_eq_write_iff {n : Int} (hn : 0 < n) (hmost : n < 2 ^ 63) :
    ∃ digits : List Char,
      (∃ d < 10, digits.head? = some ((Numerals.ofLocale l).digit d)) ∧
      (p.write l (.integer n)).toList = (texts l p.positive).1 ++ digits ++ (texts l p.positive).2 ∧
      (p.negative = none → p.write l (.integer (-n)) = "-" ++ p.write l (.integer n)) ∧
      (∀ a, p.negative = some a →
        (p.write l (.integer (-n))).toList = (texts l a).1 ++ digits ++ (texts l a).2) ∧
      (p.write l (.integer n) = p.write l (.integer (-n)) ↔ ∃ a, p.negative = some a ∧
        (Shifts digits (texts l p.positive) (texts l a) ∨ Shifts digits (texts l a) (texts l p.positive))) ∧
      ∀ a, p.negative = some a → ¬HoldsDigit l p.positive → ¬HoldsDigit l a →
        (p.write l (.integer n) = p.write l (.integer (-n)) ↔ texts l p.positive = texts l a) := by
  have hx : (Numeric.integer n).isNegative = false := decide_eq_false (by omega)
  have hx' : (Numeric.integer n).negate.isNegative = true := decide_eq_true (by omega)
  have hlost := write_eq_write_negate_iff p l hx hx'
  have hfits : n.natAbs < 2 ^ 64 := by omega
  obtain ⟨d, hd⟩ := Numeric.exists_magnitude (Numeric.isFinite_scale_integer hfits p.scale)
  obtain ⟨first, hfirst, hhead⟩ := DigitBody.head?_write p.layout d (.ofLocale l) p.layout.grouped
  rw [← Numeric.body_of_magnitude hd] at hhead
  have hnegate : (Numeric.integer n).negate = .integer (-n) := rfl
  have hnone := write_negate_of_none p l hx hx'
  have hsome := fun a => write_negate_of_affixes p l hx' (a := a)
  rw [hnegate] at hlost hnone hsome
  refine ⟨_, ⟨first, hfirst, hhead⟩, write_of_nonneg p l hx, hnone, hsome, hlost, ?_⟩
  intro a ha hpositive hnegative
  rw [← shifts_iff_eq l hfirst hhead hpositive hnegative]
  exact hlost.trans (by simp [ha])

def parenthesized : NumberPattern :=
  ⟨⟨[], []⟩, some ⟨[.text "("], [.text ")"]⟩, ⟨0, 0, 0, false⟩, .one⟩

theorem write_neg_parenthesized :
    parse "#;(#)" = .ok parenthesized ∧ (0 : Int) < 1234 ∧ (1234 : Int) < 2 ^ 63 ∧
      parenthesized.write .germany (.integer 1234) ≠ parenthesized.write .germany (.integer (-1234)) := by
  refine ⟨by decide +kernel, by decide, by decide, ?_⟩
  obtain ⟨digits, -, -, -, -, -, h⟩ :=
    write_neg_eq_write_iff parenthesized .germany (n := 1234) (by decide) (by decide)
  rw [ne_eq, h _ rfl (by decide +kernel) (by decide +kernel)]
  decide +kernel

def unsignedDigits : NumberPattern :=
  ⟨⟨[], []⟩, some ⟨[], []⟩, ⟨1, 0, 0, false⟩, .one⟩

theorem sign_not_always_shown :
    ¬∀ (text : String) (p : NumberPattern) (l : Locale) (n : Int), parse text = .ok p → 0 < n →
      n < 2 ^ 63 → p.write l (.integer n) ≠ p.write l (.integer (-n)) := by
  intro h
  have hparse : parse "0;0" = .ok unsignedDigits := by decide +kernel
  exact h "0;0" unsignedDigits .germany 5 hparse (by decide) (by decide) (by decide +kernel)

end NumberPattern

end MessageCatalog
