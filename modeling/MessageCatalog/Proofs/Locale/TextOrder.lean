import MessageCatalog.Proofs.Locale.Spellings
import MessageCatalog.Proofs.Text.ByteOrder

namespace MessageCatalog

theorem Language.eq_of_code {l m : Language} (h : l.code = m.code) : l = m := by
  cases l
  cases m
  cases h
  rfl

theorem bytes_lt_iff_precedes {s t : String} :
    Text.bytes s < Text.bytes t ↔ KeyOrder.precedes s t = true := by
  rw [Text.bytes_lt_bytes_iff]
  exact decide_eq_true_iff.symm

namespace Locale

open Text

variable {a b : Locale} {x y : Option String} {c : Char}

inductive IsBefore (a b : Locale) : Prop where
  | language (h : bytes a.language.code < bytes b.language.code)
  | noRegion {s : Region} (hl : a.language = b.language) (ha : a.region = none) (hb : b.region = some s)
  | region {r s : Region} (hl : a.language = b.language) (ha : a.region = some r) (hb : b.region = some s)
      (h : bytes r.code < bytes s.code)

theorem isBefore_iff : IsBefore a b ↔ precedes a b = true := by
  rw [precedes_iff]
  constructor
  · intro h
    cases h with
    | language h => exact .inl (bytes_lt_iff_precedes.mp h)
    | noRegion hl ha hb =>
      refine .inr ⟨congrArg _ hl, ?_⟩
      rw [regionCode, regionCode, ha, hb]
      rfl
    | region hl ha hb h =>
      refine .inr ⟨congrArg _ hl, ?_⟩
      rw [regionCode, regionCode, ha, hb]
      exact bytes_lt_iff_precedes.mp h
  · rintro (h | ⟨hl, h⟩)
    · exact .language (bytes_lt_iff_precedes.mpr h)
    · have hlanguage : a.language = b.language := Language.eq_of_code hl
      rw [regionCode, regionCode] at h
      cases ha : a.region with
      | none =>
        cases hb : b.region with
        | none => simp [ha, hb, regionPrecedes] at h
        | some s => exact .noRegion hlanguage ha hb
      | some r =>
        cases hb : b.region with
        | none => simp [ha, hb, regionPrecedes] at h
        | some s =>
          rw [ha, hb] at h
          exact .region hlanguage ha hb (bytes_lt_iff_precedes.mpr h)

def behindLanguage : Option String → List Char
  | none => []
  | some code => '-' :: code.toList

theorem toList_text (l : Locale) : l.text.toList = l.language.code.toList ++ behindLanguage l.regionCode := by
  rw [text, regionCode]
  cases l.region <;> simp [behindLanguage]

theorem behindLanguage_lt_iff : behindLanguage x < behindLanguage y ↔ regionPrecedes x y = true := by
  cases x with
  | none => cases y <;> simp [behindLanguage, regionPrecedes]
  | some r =>
    cases y with
    | none => simp [behindLanguage, regionPrecedes]
    | some s =>
      rw [behindLanguage, behindLanguage, List.cons_lt_cons_iff, ← String.lt_iff, regionPrecedes,
        ← bytes_lt_iff_precedes, bytes_lt_bytes_iff]
      simp

theorem behindLanguage_lt_cons (hc : '-' < c) (cs : List Char) : behindLanguage x < c :: cs := by
  cases x with
  | none => exact List.nil_lt_cons c cs
  | some code => exact List.cons_lt_cons_iff.mpr (.inl hc)

theorem append_behindLanguage_lt_iff {xs ys : List Char} (hx : ∀ c ∈ xs, '-' < c) (hy : ∀ c ∈ ys, '-' < c) :
    xs ++ behindLanguage x < ys ++ behindLanguage y ↔
      xs < ys ∨ xs = ys ∧ behindLanguage x < behindLanguage y := by
  -- where only one language has ended, what stands behind it comes before the letter of the other
  induction xs generalizing ys with
  | nil =>
    cases ys with
    | nil => simp
    | cons d ys => simp [behindLanguage_lt_cons (hy d List.mem_cons_self)]
  | cons c xs ih =>
    cases ys with
    | nil =>
      have hlt : behindLanguage y < c :: (xs ++ behindLanguage x) :=
        behindLanguage_lt_cons (hx c List.mem_cons_self) _
      simpa using hlt.le
    | cons d ys =>
      obtain ⟨-, hxs⟩ := List.forall_mem_cons.mp hx
      obtain ⟨-, hys⟩ := List.forall_mem_cons.mp hy
      rw [List.cons_append, List.cons_append, List.cons_lt_cons_iff, ih hxs hys, List.cons_lt_cons_iff,
        List.cons.injEq]
      tauto

theorem dash_lt_of_mem {language : Language} (h : c ∈ language.code.toList) : '-' < c := by
  have hc := isLowerLetter_iff.mp (Language.isLowerLetter_of_mem h)
  change 45 < c.toNat
  omega

theorem bytes_text_lt_iff : bytes a.text < bytes b.text ↔ precedes a b = true := by
  rw [bytes_lt_bytes_iff, String.lt_iff, toList_text, toList_text,
    append_behindLanguage_lt_iff (fun _ => dash_lt_of_mem) fun _ => dash_lt_of_mem, behindLanguage_lt_iff,
    precedes_iff, ← String.lt_iff, ← bytes_lt_bytes_iff, bytes_lt_iff_precedes, String.toList_inj]

theorem eq_of_text (h : a.text = b.text) : a = b := by
  rw [← Option.some_inj, ← read?_text a, ← read?_text b, h]

theorem isBlank_of_mem_text {l : Locale} (h : c ∈ l.text.toList) : isBlank c = false := by
  rw [toList_text] at h
  rcases List.mem_append.mp h with h | h
  · exact (Language.isSolid_of_mem h).1
  · rw [regionCode] at h
    cases hregion : l.region with
    | none =>
      rw [hregion] at h
      cases h
    | some region =>
      rw [hregion] at h
      rcases List.mem_cons.mp h with rfl | h
      · rfl
      · exact (Region.isSolid_of_mem h).1

theorem ascend_text_iff {ls : List Locale} :
    Ascend (ls.map text) ↔ ls.Pairwise fun a b => KeyOrder.precedes a b = true := by
  rw [Ascend, List.pairwise_map]
  simp only [bytes_text_lt_iff]
  rfl

end Locale

theorem SortedMap.ascend_keys {α : Type} (m : SortedMap Locale α) : Text.Ascend (m.keys.map Locale.text) :=
  Locale.ascend_text_iff.mpr (List.pairwise_map.mpr m.sorted)

end MessageCatalog
