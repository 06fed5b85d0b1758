import Mathlib.Data.List.TakeDrop
import MessageCatalog.Locale.Basic
import MessageCatalog.Proofs.Text.Trim

namespace MessageCatalog

theorem toNat_toLower (c : Char) :
    c.toLower.toNat = if 65 ≤ c.toNat ∧ c.toNat ≤ 90 then c.toNat + 32 else c.toNat := by
  delta Char.toLower
  split
  case isTrue h =>
    have hrange : 65 ≤ c.toNat ∧ c.toNat ≤ 90 := h
    rw [if_pos hrange]
    change (c.val + ('a'.val - 'A'.val)).toNat = c.val.toNat + 32
    have hval : c.val.toNat ≤ 90 := hrange.2
    rw [UInt32.toNat_add]
    have h32 : ('a'.val - 'A'.val).toNat = 32 := rfl
    rw [h32]
    omega
  case isFalse h =>
    have hrange : ¬(65 ≤ c.toNat ∧ c.toNat ≤ 90) := h
    rw [if_neg hrange]

theorem toNat_toUpper (c : Char) :
    c.toUpper.toNat = if 97 ≤ c.toNat ∧ c.toNat ≤ 122 then c.toNat - 32 else c.toNat := by
  delta Char.toUpper
  split
  case isTrue h =>
    have hrange : 97 ≤ c.toNat ∧ c.toNat ≤ 122 := h
    rw [if_pos hrange]
    change (c.val + ('A'.val - 'a'.val)).toNat = c.val.toNat - 32
    have hval : c.val.toNat ≤ 122 := hrange.2
    have hval' : 97 ≤ c.val.toNat := hrange.1
    rw [UInt32.toNat_add]
    have h32 : ('A'.val - 'a'.val).toNat = 2 ^ 32 - 32 := rfl
    rw [h32]
    omega
  case isFalse h =>
    have hrange : ¬(97 ≤ c.toNat ∧ c.toNat ≤ 122) := h
    rw [if_neg hrange]

theorem isLowerLetter_iff {c : Char} : isLowerLetter c = true ↔ 97 ≤ c.toNat ∧ c.toNat ≤ 122 := by
  rw [isLowerLetter, Bool.and_eq_true, decide_eq_true_eq, decide_eq_true_eq]
  exact Iff.rfl

theorem isUpperLetter_iff {c : Char} : isUpperLetter c = true ↔ 65 ≤ c.toNat ∧ c.toNat ≤ 90 := by
  rw [isUpperLetter, Bool.and_eq_true, decide_eq_true_eq, decide_eq_true_eq]
  exact Iff.rfl

theorem isDigit_iff {c : Char} : c.isDigit = true ↔ 48 ≤ c.toNat ∧ c.toNat ≤ 57 := by
  rw [Char.isDigit, Bool.and_eq_true, decide_eq_true_eq, decide_eq_true_eq]
  exact Iff.rfl

theorem isSeparator_iff {c : Char} : Locale.isSeparator c = true ↔ c.toNat = 45 ∨ c.toNat = 95 := by
  rw [Locale.isSeparator, Bool.or_eq_true, beq_iff_eq, beq_iff_eq, ← Char.toNat_inj, ← Char.toNat_inj]
  exact Iff.rfl

theorem isBlank_toLower (c : Char) : Text.isBlank c.toLower = Text.isBlank c := by
  rw [Bool.eq_iff_iff]
  simp only [Text.isBlank, toNat_toLower, Bool.or_eq_true, Bool.and_eq_true, decide_eq_true_eq, beq_iff_eq]
  split <;> omega

theorem isSeparator_toLower (c : Char) : Locale.isSeparator c.toLower = Locale.isSeparator c := by
  rw [Bool.eq_iff_iff, isSeparator_iff, isSeparator_iff, toNat_toLower]
  split <;> omega

theorem toLower_toLower (c : Char) : c.toLower.toLower = c.toLower := by
  rw [← Char.toNat_inj, toNat_toLower c.toLower, toNat_toLower]
  split_ifs <;> omega

theorem toUpper_toLower (c : Char) : c.toLower.toUpper = c.toUpper := by
  rw [← Char.toNat_inj, toNat_toUpper, toNat_toUpper, toNat_toLower]
  split_ifs <;> omega

theorem toLower_of_isLowerLetter {c : Char} (h : isLowerLetter c = true) : c.toLower = c := by
  have hc := isLowerLetter_iff.mp h
  rw [← Char.toNat_inj, toNat_toLower, if_neg (by omega)]

theorem toUpper_of_not_isLowerLetter {c : Char} (h : isLowerLetter c = false) : c.toUpper = c := by
  have hc : ¬(97 ≤ c.toNat ∧ c.toNat ≤ 122) := by rw [← isLowerLetter_iff, h]; exact Bool.false_ne_true
  rw [← Char.toNat_inj, toNat_toUpper, if_neg hc]

theorem isSeparator_toUpper (c : Char) : Locale.isSeparator c.toUpper = Locale.isSeparator c := by
  rw [Bool.eq_iff_iff, isSeparator_iff, isSeparator_iff, toNat_toUpper]
  split <;> omega

theorem isBlank_of_isSeparator {c : Char} (h : Locale.isSeparator c = true) : Text.isBlank c = false := by
  rw [isSeparator_iff] at h
  rw [← Bool.not_eq_true]
  simp only [Text.isBlank, Bool.or_eq_true, Bool.and_eq_true, decide_eq_true_eq, beq_iff_eq]
  omega

def IsSolid (c : Char) : Prop :=
  Text.isBlank c = false ∧ Locale.isSeparator c = false

theorem isSolid_of_range {c : Char} (h : 48 ≤ c.toNat ∧ c.toNat ≤ 122) (hs : c.toNat ≠ 95) : IsSolid c := by
  rw [IsSolid, ← Bool.not_eq_true, ← Bool.not_eq_true, isSeparator_iff]
  simp only [Text.isBlank, Bool.or_eq_true, Bool.and_eq_true, decide_eq_true_eq, beq_iff_eq]
  omega

namespace Language

variable {cs : List Char} {language : Language} {c : Char}

theorem isLowerLetter_of_mem (h : c ∈ language.code.toList) : isLowerLetter c = true := by
  have hvalid := language.valid
  rw [isLanguageCode, Bool.and_eq_true] at hvalid
  exact List.all_eq_true.mp hvalid.2 c h

theorem isSolid_of_mem (h : c ∈ language.code.toList) : IsSolid c := by
  have hc := isLowerLetter_iff.mp (isLowerLetter_of_mem h)
  exact isSolid_of_range (by omega) (by omega)

theorem read?_eq_some_iff : read? cs = some language ↔ cs.map Char.toLower = language.code.toList := by
  obtain ⟨code, hvalid⟩ := language
  rw [read?]
  split
  case isTrue h =>
    rw [Option.some_inj, Language.mk.injEq, ← String.toList_inj, String.toList_ofList]
  case isFalse h =>
    simp only [reduceCtorEq, false_iff]
    intro hcode
    rw [hcode] at h
    exact h hvalid

theorem read?_code (language : Language) : read? language.code.toList = some language := by
  rw [read?_eq_some_iff]
  conv => rhs; rw [← List.map_id language.code.toList]
  exact List.map_congr_left fun c h => toLower_of_isLowerLetter (isLowerLetter_of_mem h)

theorem read?_toLower (cs : List Char) : read? (cs.map Char.toLower) = read? cs := by
  have htwice : Char.toLower ∘ Char.toLower = Char.toLower := funext toLower_toLower
  ext language
  rw [read?_eq_some_iff, read?_eq_some_iff, List.map_map, htwice]

theorem isSeparator_of_read? (h : read? cs = some language) (hc : c ∈ cs) :
    Locale.isSeparator c = false := by
  have hmap := List.mem_map_of_mem (f := Char.toLower) hc
  rw [read?_eq_some_iff.mp h] at hmap
  rw [← isSeparator_toLower]
  exact (isSolid_of_mem hmap).2

end Language

namespace Region

variable {cs : List Char} {region : Region} {c : Char}

theorem isUpperLetter_or_isDigit_of_mem (h : c ∈ region.code.toList) :
    isUpperLetter c = true ∨ c.isDigit = true := by
  have hvalid := region.valid
  rw [isRegionCode, Bool.or_eq_true, Bool.and_eq_true, Bool.and_eq_true] at hvalid
  rcases hvalid with hvalid | hvalid
  · exact .inl (List.all_eq_true.mp hvalid.2 c h)
  · exact .inr (List.all_eq_true.mp hvalid.2 c h)

theorem range_of_mem (h : c ∈ region.code.toList) : 48 ≤ c.toNat ∧ c.toNat ≤ 90 := by
  rcases isUpperLetter_or_isDigit_of_mem h with hc | hc
  · rw [isUpperLetter_iff] at hc
    omega
  · rw [isDigit_iff] at hc
    omega

theorem isSolid_of_mem (h : c ∈ region.code.toList) : IsSolid c := by
  have hc := range_of_mem h
  exact isSolid_of_range (by omega) (by omega)

theorem read?_eq_some_iff : read? cs = some region ↔ cs.map Char.toUpper = region.code.toList := by
  obtain ⟨code, hvalid⟩ := region
  rw [read?]
  split
  case isTrue h =>
    rw [Option.some_inj, Region.mk.injEq, ← String.toList_inj, String.toList_ofList]
  case isFalse h =>
    simp only [reduceCtorEq, false_iff]
    intro hcode
    rw [hcode] at h
    exact h hvalid

theorem read?_code (region : Region) : read? region.code.toList = some region := by
  rw [read?_eq_some_iff]
  conv => rhs; rw [← List.map_id region.code.toList]
  refine List.map_congr_left fun c h => toUpper_of_not_isLowerLetter ?_
  have hc := range_of_mem h
  rw [← Bool.not_eq_true, isLowerLetter_iff]
  omega

theorem read?_toLower (cs : List Char) : read? (cs.map Char.toLower) = read? cs := by
  have hcomp : Char.toUpper ∘ Char.toLower = Char.toUpper := funext toUpper_toLower
  ext region
  rw [read?_eq_some_iff, read?_eq_some_iff, List.map_map, hcomp]

theorem isSeparator_of_read? (h : read? cs = some region) (hc : c ∈ cs) :
    Locale.isSeparator c = false := by
  have hmap := List.mem_map_of_mem (f := Char.toUpper) hc
  rw [read?_eq_some_iff.mp h] at hmap
  rw [← isSeparator_toUpper]
  exact (isSolid_of_mem hmap).2

end Region

namespace Locale

variable {language country language' country' cs : List Char} {c s : Char}

theorem ofParts?_none (language : List Char) :
    ofParts? language none = (Language.read? (Text.trim language)).map fun language => ⟨language, none⟩ := by
  rw [ofParts?]
  cases Language.read? (Text.trim language) <;> rfl

theorem ofParts?_of_blank (h : Text.trim country = []) (language : List Char) :
    ofParts? language (some country) = ofParts? language none := by
  simp only [ofParts?, Option.map_some, Option.map_none, h]

theorem ofParts?_of_not_blank (h : Text.trim country ≠ []) (language : List Char) :
    ofParts? language (some country) = (Language.read? (Text.trim language)).bind fun language =>
      (Region.read? (Text.trim country)).map fun region => ⟨language, some region⟩ := by
  obtain ⟨c, cs, hcs⟩ := List.exists_cons_of_ne_nil h
  simp only [ofParts?, Option.map_some, hcs]
  rfl

theorem ofParts?_congr (hl : Language.read? (Text.trim language) = Language.read? (Text.trim language'))
    (hempty : Text.trim country = [] ↔ Text.trim country' = [])
    (hr : Region.read? (Text.trim country) = Region.read? (Text.trim country')) :
    ofParts? language (some country) = ofParts? language' (some country') := by
  by_cases h : Text.trim country = []
  · rw [ofParts?_of_blank h, ofParts?_of_blank (hempty.mp h), ofParts?_none, ofParts?_none, hl]
  · rw [ofParts?_of_not_blank h, ofParts?_of_not_blank (fun h' => h (hempty.mpr h')), hl, hr]

theorem ofParts?_of_language_separator (hc : c ∈ language) (hs : isSeparator c = true)
    (country : Option (List Char)) : ofParts? language country = none := by
  cases h : Language.read? (Text.trim language) with
  | none => rw [ofParts?, h]; rfl
  | some read =>
    have hnot := Language.isSeparator_of_read? h (Text.mem_trim (isBlank_of_isSeparator hs) hc)
    rw [hs] at hnot
    cases hnot

theorem ofParts?_of_country_separator (hc : c ∈ country) (hs : isSeparator c = true)
    (language : List Char) : ofParts? language (some country) = none := by
  have hmem := Text.mem_trim (isBlank_of_isSeparator hs) hc
  rw [ofParts?_of_not_blank (List.ne_nil_of_mem hmem)]
  cases h : Region.read? (Text.trim country) with
  | none => cases Language.read? (Text.trim language) <;> rfl
  | some read =>
    have hnot := Region.isSeparator_of_read? h hmem
    rw [hs] at hnot
    cases hnot

theorem exists_first_separator (cs : List Char) : (∀ c ∈ cs, isSeparator c = false) ∨
    ∃ language s country, cs = language ++ s :: country ∧ isSeparator s = true ∧
      ∀ c ∈ language, isSeparator c = false := by
  induction cs with
  | nil => exact .inl (fun _ h => nomatch h)
  | cons c cs ih =>
    cases hc : isSeparator c with
    | true => exact .inr ⟨[], c, cs, rfl, hc, (fun _ h => nomatch h)⟩
    | false =>
      rcases ih with hall | ⟨language, s, country, rfl, hs, hlanguage⟩
      · exact .inl (List.forall_mem_cons.mpr ⟨hc, hall⟩)
      · exact .inr ⟨c :: language, s, country, rfl, hs, List.forall_mem_cons.mpr ⟨hc, hlanguage⟩⟩

theorem read?_of_no_separator (h : ∀ c ∈ cs, isSeparator c = false) : read? cs = ofParts? cs none := by
  have hall : ∀ c ∈ Text.trim cs, (!isSeparator c) = true := fun c hc => by
    rw [h c (Text.mem_of_mem_trim hc), Bool.not_false]
  simp only [read?, List.span_eq_takeWhile_dropWhile, List.takeWhile_eq_self_iff.mpr hall,
    List.dropWhile_eq_nil_iff.mpr hall]
  rw [ofParts?_none, ofParts?_none, Text.trim_trim]

theorem read?_of_first_separator (h : ∀ c ∈ language, isSeparator c = false) (hs : isSeparator s = true)
    (country : List Char) : read? (language ++ s :: country) = ofParts? language (some country) := by
  have hall : ∀ c ∈ Text.trimStart language, (!isSeparator c) = true := fun c hc => by
    rw [h c (Text.mem_of_mem_trimStart hc), Bool.not_false]
  have htake : (s :: Text.trimEnd country).takeWhile (fun c => !isSeparator c) = [] := by
    simp [hs]
  have hdrop : (s :: Text.trimEnd country).dropWhile (fun c => !isSeparator c) =
      s :: Text.trimEnd country := by
    simp [hs]
  simp only [read?, List.span_eq_takeWhile_dropWhile, Text.trim_append_cons (isBlank_of_isSeparator hs),
    List.takeWhile_append_of_pos hall, List.dropWhile_append_of_pos hall, htake, hdrop, List.append_nil]
  split
  case isTrue hany =>
    obtain ⟨c, hc, hsep⟩ := List.any_eq_true.mp hany
    exact (ofParts?_of_country_separator (Text.mem_of_mem_trimEnd hc) hsep language).symm
  case isFalse =>
    apply ofParts?_congr
    · rw [Text.trim_trimStart]
    · rw [Text.trim_trimEnd]
    · rw [Text.trim_trimEnd]

theorem read?_append_cons (hs : isSeparator s = true) (language country : List Char) :
    read? (language ++ s :: country) = ofParts? language (some country) := by
  rcases exists_first_separator language with h | ⟨front, t, back, rfl, ht, hfront⟩
  · exact read?_of_first_separator h hs country
  · -- two separators are too many for the text, and one for a language
    have hcountry : s ∈ back ++ s :: country := List.mem_append_right _ List.mem_cons_self
    have hlanguage : t ∈ front ++ t :: back := List.mem_append_right _ List.mem_cons_self
    rw [List.append_assoc, List.cons_append, read?_of_first_separator hfront ht,
      ofParts?_of_country_separator hcountry hs, ofParts?_of_language_separator hlanguage ht]

theorem read?_text (l : Locale) : read? l.text.toList = some l := by
  obtain ⟨language, region⟩ := l
  have hlanguage : Text.trim language.code.toList = language.code.toList :=
    Text.trim_of_not_blank fun c hc => (Language.isSolid_of_mem hc).1
  cases region with
  | none =>
    rw [text, read?_of_no_separator fun c hc => (Language.isSolid_of_mem hc).2, ofParts?_none, hlanguage,
      Language.read?_code, Option.map_some]
  | some region =>
    have hregion : Text.trim region.code.toList = region.code.toList :=
      Text.trim_of_not_blank fun c hc => (Region.isSolid_of_mem hc).1
    have hne : region.code.toList ≠ [] := by
      intro hnil
      have hvalid := region.valid
      rw [hnil] at hvalid
      cases hvalid
    have htext : (text ⟨language, some region⟩).toList =
        language.code.toList ++ '-' :: region.code.toList := by
      simp [text]
    rw [htext, read?_append_cons rfl, ofParts?_of_not_blank (by rwa [hregion]), hlanguage, hregion,
      Language.read?_code, Region.read?_code]
    rfl

theorem ofParts?_toLower (language : List Char) (country : Option (List Char)) :
    ofParts? (language.map Char.toLower) (country.map (List.map Char.toLower)) =
      ofParts? language country := by
  have hl : Language.read? (Text.trim (language.map Char.toLower)) = Language.read? (Text.trim language) := by
    rw [Text.trim_map isBlank_toLower, Language.read?_toLower]
  cases country with
  | none => rw [Option.map_none, ofParts?_none, ofParts?_none, hl]
  | some country =>
    apply ofParts?_congr hl
    · rw [Text.trim_map isBlank_toLower, List.map_eq_nil_iff]
    · rw [Text.trim_map isBlank_toLower, Region.read?_toLower]

def fold (c : Char) : Char :=
  if isSeparator c then '-' else c.toLower

theorem isSeparator_fold (c : Char) : isSeparator (fold c) = isSeparator c := by
  rw [fold]
  split
  case isTrue h =>
    rw [h]
    rfl
  case isFalse => exact isSeparator_toLower c

theorem map_fold_of_no_separator (h : ∀ c ∈ cs, isSeparator c = false) :
    cs.map fold = cs.map Char.toLower :=
  List.map_congr_left fun c hc => by rw [fold, h c hc, if_neg Bool.false_ne_true]

theorem read?_fold (cs : List Char) : read? (cs.map fold) = read? cs := by
  rcases exists_first_separator cs with h | ⟨language, s, country, rfl, hs, hlanguage⟩
  · have hfolded : ∀ c ∈ cs.map fold, isSeparator c = false :=
      List.forall_mem_map.mpr fun c hc => (isSeparator_fold c).trans (h c hc)
    rw [read?_of_no_separator h, read?_of_no_separator hfolded, map_fold_of_no_separator h]
    exact ofParts?_toLower cs none
  · rw [List.map_append, List.map_cons, read?_append_cons hs,
      read?_append_cons ((isSeparator_fold s).trans hs)]
    by_cases hcountry : ∀ c ∈ country, isSeparator c = false
    · rw [map_fold_of_no_separator hlanguage, map_fold_of_no_separator hcountry]
      exact ofParts?_toLower language (some country)
    · push Not at hcountry
      obtain ⟨c, hc, hnot⟩ := hcountry
      have hsep : isSeparator c = true := eq_true_of_ne_false hnot
      rw [ofParts?_of_country_separator hc hsep, ofParts?_of_country_separator (List.mem_map_of_mem hc)
        ((isSeparator_fold c).trans hsep)]

def IsVariant (c d : Char) : Prop :=
  c.toLower = d.toLower ∨ isSeparator c = true ∧ isSeparator d = true

theorem IsVariant.fold_eq {c d : Char} (h : IsVariant c d) : fold c = fold d := by
  rcases h with h | ⟨hc, hd⟩
  · rw [fold, fold, ← isSeparator_toLower c, ← isSeparator_toLower d, h]
  · rw [fold, fold, if_pos hc, if_pos hd]

theorem map_fold_eq {cs ds : List Char} (h : List.Forall₂ IsVariant cs ds) : cs.map fold = ds.map fold := by
  induction h with
  | nil => rfl
  | cons hc _ ih => rw [List.map_cons, List.map_cons, hc.fold_eq, ih]

def IsRespelled (t t' : String) : Prop :=
  ∃ before cs after, t'.toList = before ++ cs ++ after ∧ List.Forall₂ IsVariant t.toList cs ∧
    (∀ c ∈ before, Text.isBlank c = true) ∧ ∀ c ∈ after, Text.isBlank c = true

theorem read?_of_isRespelled {t t' : String} (h : IsRespelled t t') : read? t'.toList = read? t.toList := by
  obtain ⟨before, cs, after, ht', hvariants, hbefore, hafter⟩ := h
  have htrim : read? (before ++ cs ++ after) = read? cs := by
    simp only [read?, Text.trim_around hbefore hafter]
  rw [ht', htrim, ← read?_fold cs, ← map_fold_eq hvariants, read?_fold]

theorem parse_eq (t : String) : parse t = (read? t.toList).elim (.error ⟨t⟩) .ok := by
  rw [parse]
  cases read? t.toList <;> rfl

theorem make_some (language country : String) :
    make language (some country) = (ofParts? language.toList (some country.toList)).elim
      (.error ⟨language ++ "_" ++ country⟩) .ok := by
  simp only [make, Option.map_some]
  cases ofParts? language.toList (some country.toList) <;> rfl

theorem make_none (language : String) :
    make language none = (ofParts? language.toList none).elim (.error ⟨language⟩) .ok := by
  simp only [make, Option.map_none]
  cases ofParts? language.toList none <;> rfl

theorem parse_eq_ok_iff {t : String} {l : Locale} : parse t = .ok l ↔ read? t.toList = some l := by
  rw [parse_eq]
  cases read? t.toList <;> simp

def Agree (r r' : Except LocaleError Locale) (t t' : String) : Prop :=
  (∃ l, r = .ok l ∧ r' = .ok l) ∨ r = .error ⟨t⟩ ∧ r' = .error ⟨t'⟩

theorem agree_of_read?_eq {t t' : String} (h : read? t'.toList = read? t.toList) :
    Agree (parse t) (parse t') t t' := by
  rw [parse_eq, parse_eq, h]
  cases read? t.toList with
  | none => exact .inr ⟨rfl, rfl⟩
  | some l => exact .inl ⟨l, rfl, rfl⟩

theorem parse_normalizes :
    (∀ language country separator : String, separator = "-" ∨ separator = "_" →
      Agree (parse (language ++ separator ++ country)) (make language (some country))
        (language ++ separator ++ country) (language ++ "_" ++ country)) ∧
    (∀ language country : String, (∀ c ∈ country.toList, Text.isBlank c = true) →
      ∀ l, make language (some country) = .ok l ↔ make language none = .ok l) ∧
    (∀ l : Locale, parse l.text = .ok l) ∧
    (∀ t t' : String, IsRespelled t t' → Agree (parse t) (parse t') t t') ∧
    ∀ a b : Locale, a = b ↔ a.text = b.text := by
  have htext : ∀ l : Locale, parse l.text = .ok l := fun l => parse_eq_ok_iff.mpr (read?_text l)
  refine ⟨?_, ?_, htext, fun t t' h => agree_of_read?_eq (read?_of_isRespelled h), fun a b => ?_⟩
  · intro language country separator hseparator
    obtain ⟨s, hs, hs'⟩ : ∃ s, isSeparator s = true ∧ separator.toList = [s] := by
      rcases hseparator with rfl | rfl
      · exact ⟨'-', rfl, rfl⟩
      · exact ⟨'_', rfl, rfl⟩
    have hread : read? (language ++ separator ++ country).toList =
        ofParts? language.toList (some country.toList) := by
      rw [String.toList_append, String.toList_append, hs', List.append_assoc, List.singleton_append,
        read?_append_cons hs]
    rw [parse_eq, make_some, hread]
    cases ofParts? language.toList (some country.toList) with
    | none => exact .inr ⟨rfl, rfl⟩
    | some l => exact .inl ⟨l, rfl, rfl⟩
  · intro language country hblank l
    have hparts := ofParts?_of_blank (Text.trim_of_blank hblank) language.toList
    rw [make_some, hparts, make_none]
    cases ofParts? language.toList none <;> simp
  · constructor
    · exact congrArg text
    · intro h
      have ha := htext a
      rw [h, htext b] at ha
      exact (Except.ok.inj ha).symm

theorem parse_normalizes_german :
    ("_" = "-" ∨ "_" = "_") ∧ (∀ c ∈ "\t".toList, Text.isBlank c = true) ∧ IsRespelled "de-DE" " DE_de\t" ∧
      Agree (parse ("DE" ++ "_" ++ "\t")) (make "DE" (some "\t")) ("DE" ++ "_" ++ "\t")
        ("DE" ++ "_" ++ "\t") ∧
      (∀ l, make "DE" (some "\t") = .ok l ↔ make "DE" none = .ok l) ∧
      parse " DE_de\t" = .ok .germany := by
  have hblank : ∀ c ∈ "\t".toList, Text.isBlank c = true := by simp [Text.isBlank]
  have hletter : ∀ {c d : Char}, c.toLower = d.toLower → IsVariant c d := .inl
  have hvariants : List.Forall₂ IsVariant "de-DE".toList ['D', 'E', '_', 'd', 'e'] :=
    .cons (hletter rfl) (.cons (hletter rfl) (.cons (.inr ⟨rfl, rfl⟩)
      (.cons (hletter rfl) (.cons (hletter rfl) .nil))))
  have hrespelled : IsRespelled "de-DE" " DE_de\t" :=
    ⟨[' '], _, ['\t'], rfl, hvariants, by simp [Text.isBlank], by simp [Text.isBlank]⟩
  obtain ⟨hparts, hnone, htext, hspelled, -⟩ := parse_normalizes
  refine ⟨.inr rfl, hblank, hrespelled, hparts _ _ _ (.inr rfl), hnone _ _ hblank, ?_⟩
  have hgermany : parse "de-DE" = .ok .germany := htext .germany
  rcases hspelled _ _ hrespelled with ⟨l, hl, hl'⟩ | ⟨herror, -⟩
  · rw [hgermany] at hl
    rw [hl', ← Except.ok.inj hl]
  · rw [hgermany] at herror
    cases herror

end Locale

end MessageCatalog
