import MessageCatalog.Proofs.Bundle.Escapes
import MessageCatalog.Proofs.Bundle.WrittenProperties

namespace MessageCatalog.Properties

/-- A line is a key, pads with at most one sign among them, and a value. The key has none of these
unescaped, and the value begins with none that the separator could have taken. -/
inductive IsEntry (line : List Char) : String × String → Prop where
  | cut {keyText before sign after valueText : List Char} {key value : List Letter}
      (hline : line = keyText ++ (before ++ sign ++ after) ++ valueText)
      (hkey : Reads keyText key) (hends : ∀ l ∈ key, l.Avoids inKey)
      (hbefore : ∀ c ∈ before, c ∈ pads) (hsign : sign ∈ [[], ['='], [':']])
      (hafter : ∀ c ∈ after, c ∈ pads) (hvalue : Reads valueText value)
      (hstart : ∀ l ∈ value.head?, l.Avoids (if sign = [] then inKey else pads))
      (hsome : before ++ sign ++ after = [] → valueText = []) :
      IsEntry line (text key, text value)

theorem Reads.append {as bs : List Letter} {cs : List Char} (h : Reads cs (as ++ bs)) :
    ∃ front back, cs = front ++ back ∧ Reads front as ∧ Reads back bs := by
  induction as generalizing cs with
  | nil => exact ⟨[], cs, rfl, .nil, h⟩
  | cons a as ih =>
    cases h with
    | @cons t rest _ _ ht hs =>
      obtain ⟨front, back, rfl, hfront, hback⟩ := ih hs
      exact ⟨t ++ front, back, by rw [List.append_assoc], .cons ht hfront, hback⟩

theorem Reads.eq_map {cs : List Char} {ls : List Letter} (h : Reads cs ls)
    (hl : ∀ l ∈ ls, l.isEscaped = false) : cs = ls.map Letter.char := by
  induction h with
  | nil => rfl
  | @cons t rest l ls ht _ ih =>
    obtain ⟨hfirst, hrest⟩ := List.forall_mem_cons.mp hl
    cases ht with
    | plain _ => rw [ih hrest, List.map_cons, List.singleton_append]
    | _ => cases hfirst

theorem Reads.nil_iff {cs : List Char} {ls : List Letter} (h : Reads cs ls) : cs = [] ↔ ls = [] := by
  cases h with
  | nil => exact ⟨fun _ => rfl, fun _ => rfl⟩
  | cons ht _ => simp [ht.ne_nil]

namespace Letter

variable {l : Letter}

theorem isPad_iff : l.isPad = true ↔ l.isEscaped = false ∧ l.char ∈ pads := by
  simp [isPad, Properties.isPad, pads, or_assoc]

theorem isAssignment_iff : l.isAssignment = true ↔ l.isEscaped = false ∧ (l.char = '=' ∨ l.char = ':') := by
  simp [isAssignment]

theorem avoids_inKey_iff : l.Avoids inKey ↔ isKeyLetter l = true := by
  cases h : l.isEscaped <;>
    simp [Avoids, isKeyLetter, isPad, isAssignment, Properties.isPad, inKey, pads, h]
  tauto

end Letter

structure Separates (before sign after value rest : List Letter) : Prop where
  split : rest = before ++ sign ++ after ++ value
  pads_before : ∀ l ∈ before, l.isPad = true
  one_sign : sign = [] ∨ ∃ l, sign = [l] ∧ l.isAssignment = true
  pads_after : ∀ l ∈ after, l.isPad = true
  start : ∀ l ∈ value.head?, l.isPad = false ∧ (sign = [] → l.isAssignment = false)

theorem not_of_mem_head_dropWhile {α : Type} {p : α → Bool} {xs : List α} {x : α}
    (h : x ∈ (xs.dropWhile p).head?) : p x = false := by
  have hhead := List.head?_dropWhile_not p xs
  rw [Option.mem_def.mp h] at hhead
  exact hhead

theorem exists_separates (rest : List Letter) :
    ∃ before sign after, Separates before sign after (dropSeparator rest) rest := by
  have htaken : ∀ ls : List Letter, ∀ l ∈ ls.takeWhile Letter.isPad, l.isPad = true :=
    fun ls => List.all_eq_true.mp List.all_takeWhile
  have hrest : rest.takeWhile Letter.isPad ++ rest.dropWhile Letter.isPad = rest :=
    List.takeWhile_append_dropWhile
  unfold dropSeparator
  cases hd : rest.dropWhile Letter.isPad with
  | nil =>
    rw [hd] at hrest
    exact ⟨_, [], [], by simpa using hrest.symm, htaken rest, .inl rfl, nofun, nofun⟩
  | cons l more =>
    have hl : l.isPad = false := not_of_mem_head_dropWhile (by rw [hd]; rfl)
    rw [hd] at hrest
    change ∃ before sign after, Separates before sign after
      ((if l.isAssignment then more else l :: more).dropWhile Letter.isPad) rest
    by_cases hs : l.isAssignment = true
    · rw [if_pos hs]
      refine ⟨_, [l], more.takeWhile Letter.isPad, ?_, htaken rest, .inr ⟨l, rfl, hs⟩, htaken more, ?_⟩
      · simp [List.takeWhile_append_dropWhile, hrest]
      · exact fun m hm => ⟨not_of_mem_head_dropWhile hm, nofun⟩
    · have hstay : (l :: more).dropWhile Letter.isPad = l :: more :=
        List.dropWhile_cons_of_neg (by simp [hl])
      rw [if_neg hs, hstay]
      refine ⟨_, [], [], by simpa using hrest.symm, htaken rest, .inl rfl, nofun, ?_⟩
      rintro m ⟨⟩
      exact ⟨hl, fun _ => Bool.eq_false_iff.mpr hs⟩

theorem Separates.isEntry {line : List Char} {key before sign after value rest : List Letter}
    (hs : Separates before sign after value rest) (h : Reads line (key ++ rest))
    (hkey : ∀ l ∈ key, isKeyLetter l = true) (hrest : ∀ l ∈ rest.head?, isKeyLetter l = false) :
    IsEntry line (text key, text value) := by
  rw [hs.split, ← List.append_assoc] at h
  obtain ⟨front, valueText, rfl, hfront, hvalue⟩ := h.append
  obtain ⟨keyText, separator, rfl, hkeyText, hseparator⟩ := hfront.append
  obtain ⟨start, afterText, rfl, hstart, hafter⟩ := hseparator.append
  obtain ⟨beforeText, signText, rfl, hbefore, hsign⟩ := hstart.append
  have hpads : ∀ {cs : List Char} {ls : List Letter}, Reads cs ls → (∀ l ∈ ls, l.isPad = true) →
      ∀ c ∈ cs, c ∈ pads := by
    intro cs ls hr hl c hc
    rw [hr.eq_map fun l hm => (Letter.isPad_iff.mp (hl l hm)).1] at hc
    obtain ⟨l, hm, rfl⟩ := List.mem_map.mp hc
    exact (Letter.isPad_iff.mp (hl l hm)).2
  have hsignText : signText ∈ [[], ['='], [':']] ∧ (signText = [] ↔ sign = []) := by
    rcases hs.one_sign with rfl | ⟨l, rfl, hl⟩
    · simp [hsign.nil_iff.mpr rfl]
    · obtain ⟨he, hc⟩ := Letter.isAssignment_iff.mp hl
      rw [hsign.eq_map (by simpa using he)]
      rcases hc with hc | hc <;> simp [hc]
  refine .cut rfl hkeyText ?_ (hpads hbefore hs.pads_before) hsignText.1 (hpads hafter hs.pads_after)
    hvalue ?_ ?_
  · exact fun l hl => Letter.avoids_inKey_iff.mpr (hkey l hl)
  · intro l hl
    obtain ⟨hpad, hassignment⟩ := hs.start l hl
    split
    case isTrue hn =>
      rw [Letter.avoids_inKey_iff, isKeyLetter, hpad, hassignment (hsignText.2.mp hn)]
      rfl
    case isFalse => exact Letter.isPad_eq_false_iff.mp hpad
  · intro hnone
    simp only [List.append_eq_nil_iff] at hnone
    obtain ⟨⟨hb, hn⟩, ha⟩ := hnone
    have hvalueRest : rest = value := by
      rw [hs.split, hbefore.nil_iff.mp hb, hsign.nil_iff.mp hn, hafter.nil_iff.mp ha]
      rfl
    rw [hvalue.nil_iff, ← List.head?_eq_none_iff, Option.eq_none_iff_forall_not_mem]
    intro l hl
    obtain ⟨hpad, hassignment⟩ := hs.start l hl
    have hend := hrest l (hvalueRest ▸ hl)
    rw [isKeyLetter, hpad, hassignment (hsign.nil_iff.mp hn)] at hend
    cases hend

theorem isEntry_of_entry? {line : List Char} {e : String × String} (h : entry? line = some e)
    (hline : EndsEven line) : IsEntry line e := by
  rw [entry?_eq, Option.map_eq_some_iff] at h
  obtain ⟨ls, hls, rfl⟩ := h
  rw [List.span_eq_takeWhile_dropWhile]
  obtain ⟨before, sign, after, hs⟩ := exists_separates (ls.dropWhile isKeyLetter)
  apply hs.isEntry
  · rw [List.takeWhile_append_dropWhile]
    exact reads_of_letters hls hline
  · exact List.all_eq_true.mp List.all_takeWhile
  · exact fun l hl => not_of_mem_head_dropWhile hl

theorem entry_eq_ok_iff {l : LogicalLine} {e : String × String} :
    entry l = .ok e ↔ entry? l.text = some e := by
  unfold entry
  cases entry? l.text <;> simp

theorem entry_eq_error_iff {l : LogicalLine} {p : PropertiesProblem} :
    entry l = .error p ↔ HasMalformed l.text ∧ p = ⟨l.number⟩ := by
  rw [← letters_eq_none_iff, entry, entry?_eq]
  cases letters l.text <;> simp [eq_comm]

end MessageCatalog.Properties
