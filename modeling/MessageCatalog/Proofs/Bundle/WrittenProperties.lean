import Mathlib.Data.List.TakeDrop
import MessageCatalog.Proofs.Bundle.Spelling
import MessageCatalog.Proofs.Traversal

namespace MessageCatalog.Properties

def pads : List Char :=
  [' ', '\t', '\x0c']

def inKey : List Char :=
  '=' :: ':' :: pads

def startingKey : List Char :=
  '#' :: '!' :: inKey

structure WrittenEntry where
  key : String
  value : String
  keyText : List Char
  valueText : List Char
  hasReturn : Bool
  writes_key : Writes inKey startingKey key.toList keyText
  writes_value : Writes [] pads value.toList valueText

theorem isPad_eq_false_iff {c : Char} : isPad c = false ↔ c ∉ pads := by
  simp [isPad, pads, and_assoc]

namespace Letter

theorem isPad_eq_false_iff {l : Letter} : l.isPad = false ↔ l.Avoids pads := by
  cases h : l.isEscaped <;> simp [isPad, Avoids, h, Properties.isPad_eq_false_iff]

theorem Avoids.mono {reserved fewer : List Char} {l : Letter} (h : l.Avoids reserved)
    (hf : fewer ⊆ reserved) : l.Avoids fewer :=
  fun he hm => h he (hf hm)

theorem Avoids.not_separator {l : Letter} (h : l.Avoids inKey) : (l.isPad || l.isAssignment) = false := by
  have hpad : l.isPad = false := isPad_eq_false_iff.mpr (h.mono (by decide))
  have hassignment : l.isAssignment = false := by
    cases he : l.isEscaped with
    | true => simp [isAssignment, he]
    | false =>
      have hc := h he
      simp_all [isAssignment, inKey]
  rw [hpad, hassignment, Bool.or_self]

end Letter

theorem dropSeparator_assignment {ls : List Letter} (h : ∀ l ∈ ls.head?, l.isPad = false) :
    dropSeparator (⟨'=', false⟩ :: ls) = ls := by
  have hls : ls.dropWhile Letter.isPad = ls := by
    cases ls with
    | nil => rfl
    | cons l ls => rw [List.dropWhile_cons, h l rfl, if_neg Bool.false_ne_true]
  exact hls

def isKeyLetter (l : Letter) : Bool :=
  !(l.isPad || l.isAssignment)

theorem entry?_eq (line : List Char) :
    entry? line = (letters line).map fun ls =>
      (text (ls.span isKeyLetter).1, text (dropSeparator (ls.span isKeyLetter).2)) := by
  unfold entry? letters
  cases pieces? line with
  | none => rfl
  | some ps =>
    simp only [Option.bind_eq_bind, Option.bind_some]
    cases letters? ps <;> rfl

theorem entry?_of_letters {line : List Char} {key value : List Letter}
    (hline : letters line = some (key ++ ⟨'=', false⟩ :: value)) (hkey : ∀ l ∈ key, l.Avoids inKey)
    (hvalue : ∀ l ∈ value.head?, l.Avoids pads) : entry? line = some (text key, text value) := by
  have hspan : (key ++ ⟨'=', false⟩ :: value).span isKeyLetter = (key, ⟨'=', false⟩ :: value) := by
    have hin : ∀ l ∈ key, isKeyLetter l = true := by
      intro l hl
      rw [isKeyLetter, (hkey l hl).not_separator, Bool.not_false]
    rw [List.span_eq_takeWhile_dropWhile, List.takeWhile_append_of_pos hin,
      List.dropWhile_append_of_pos hin]
    simp [isKeyLetter, Letter.isAssignment]
  rw [entry?_eq, hline, Option.map_some, hspan, dropSeparator_assignment]
  exact fun l hl => Letter.isPad_eq_false_iff.mpr (hvalue l hl)

namespace WrittenEntry

def line (e : WrittenEntry) : List Char :=
  e.keyText ++ '=' :: e.valueText

def ending (e : WrittenEntry) : List Char :=
  if e.hasReturn then ['\r', '\n'] else ['\n']

theorem exists_writing (key value : String) : ∃ e : WrittenEntry, e.key = key ∧ e.value = value := by
  obtain ⟨keyText, hkey⟩ := exists_writes inKey startingKey key.toList
  obtain ⟨valueText, hvalue⟩ := exists_writes [] pads value.toList
  exact ⟨⟨key, value, keyText, valueText, false, hkey, hvalue⟩, rfl, rfl⟩

theorem entry?_line (e : WrittenEntry) : entry? e.line = some (e.key, e.value) := by
  obtain ⟨key, hkey, hstart, hlater, hread⟩ := letters_writes e.writes_key
  obtain ⟨value, hvalue, hfirst, -, hreads⟩ := letters_writes e.writes_value
  have hend : letters e.valueText = some value := by
    have hnil : letters [] = some [] := rfl
    have h := hreads []
    rwa [List.append_nil, hnil, Option.map_some, List.append_nil] at h
  have hline : letters e.line = some (key ++ ⟨'=', false⟩ :: value) := by
    rw [line, hread, letters_plain (by decide), hend]
    rfl
  have havoids : ∀ l ∈ key, l.Avoids inKey := by
    intro l hl
    cases key with
    | nil => cases hl
    | cons k ks =>
      rcases List.mem_cons.mp hl with rfl | hl
      · exact (hstart l rfl).mono fun c hc => List.mem_cons_of_mem _ (List.mem_cons_of_mem _ hc)
      · exact hlater l hl
  rw [entry?_of_letters hline havoids hfirst, text, text, hkey, hvalue, String.ofList_toList,
    String.ofList_toList]

theorem ne_newline_of_mem_line {e : WrittenEntry} {c : Char} (hc : c ∈ e.line) : c ≠ '\n' ∧ c ≠ '\r' := by
  rcases List.mem_append.mp hc with hc | hc
  · exact e.writes_key.ne_newline hc
  · rcases List.mem_cons.mp hc with rfl | hc
    · decide
    · exact e.writes_value.ne_newline hc

theorem head_line (e : WrittenEntry) : ∃ c t, e.line = c :: t ∧ c ∉ '#' :: '!' :: pads := by
  have hkey := e.writes_key
  unfold line
  generalize e.key.toList = cs, e.keyText = es at hkey
  cases hkey with
  | nil => exact ⟨'=', e.valueText, rfl, by decide⟩
  | cons hc hs =>
    obtain ⟨d, t, rfl, hd⟩ := hc.head
    refine ⟨d, _, rfl, ?_⟩
    rcases hd with rfl | hd
    · decide
    · simp_all [startingKey, inKey]

theorem continues_line (e : WrittenEntry) : continues e.line = false := by
  have hsign : continues (e.keyText ++ ['=']) = false := continues_concat (by decide) _
  have hline := e.writes_value.continues_append hsign
  rwa [List.append_assoc] at hline

theorem isSingleLine_line (e : WrittenEntry) : IsSingleLine e.line := by
  obtain ⟨c, t, hline, hc⟩ := e.head_line
  refine ⟨?_, ?_, ?_, e.continues_line⟩
  · rw [hline]
    exact List.cons_ne_nil _ _
  · rw [hline]
    rintro d ⟨⟩
    exact isPad_eq_false_iff.mpr fun h => hc (List.mem_cons_of_mem _ (List.mem_cons_of_mem _ h))
  · simp_all [isComment]

end WrittenEntry

def write (es : List WrittenEntry) : String :=
  String.ofList (es.flatMap fun e => e.line ++ e.ending)

theorem physicalLines_line (e : WrittenEntry) (rest : List Char) :
    physicalLines (e.line ++ e.ending ++ rest) = e.line :: physicalLines rest := by
  have hnewline : '\n' ∉ e.line := fun h => (WrittenEntry.ne_newline_of_mem_line h).1 rfl
  have hreturn : '\r' ∉ e.line := fun h => (WrittenEntry.ne_newline_of_mem_line h).2 rfl
  cases hr : e.hasReturn with
  | false =>
    have hcut := physicalLines_append hnewline rest
    rw [dropReturn_of_not_mem hreturn] at hcut
    rw [WrittenEntry.ending, hr, if_neg Bool.false_ne_true, List.append_assoc]
    exact hcut
  | true =>
    have hmem : '\n' ∉ e.line ++ ['\r'] := by simp [hnewline]
    have hcut := physicalLines_append hmem rest
    rw [dropReturn_concat, List.append_assoc] at hcut
    rw [WrittenEntry.ending, hr, if_pos rfl, List.append_assoc]
    exact hcut

theorem physicalLines_write (es : List WrittenEntry) :
    physicalLines (es.flatMap fun e => e.line ++ e.ending) = es.map WrittenEntry.line := by
  induction es with
  | nil => rfl
  | cons e es ih => rw [List.flatMap_cons, physicalLines_line, ih, List.map_cons]

theorem mapM_join (number : Nat) (es : List WrittenEntry) :
    (join number none (es.map WrittenEntry.line)).mapM entry = .ok (es.map fun e => (e.key, e.value)) := by
  induction es generalizing number with
  | nil => rfl
  | cons e es ih =>
    have hentry : entry ⟨number, e.line⟩ = .ok (e.key, e.value) := by rw [entry, e.entry?_line]
    rw [List.map_cons, join_singleLine e.isSingleLine_line, Traversal.mapM_cons_ok hentry, ih]
    rfl

theorem exists_writings (pairs : List (String × String)) :
    ∃ es : List WrittenEntry, es.map (fun e => (e.key, e.value)) = pairs := by
  induction pairs with
  | nil => exact ⟨[], rfl⟩
  | cons pair pairs ih =>
    obtain ⟨e, hkey, hvalue⟩ := WrittenEntry.exists_writing pair.1 pair.2
    obtain ⟨es, hes⟩ := ih
    refine ⟨e :: es, ?_⟩
    rw [List.map_cons, hes, hkey, hvalue]

theorem parse_write :
    (∀ es : List WrittenEntry, parse (write es) = .ok (es.map fun e => (e.key, e.value))) ∧
      ∀ pairs : List (String × String), ∃ es : List WrittenEntry,
        es.map (fun e => (e.key, e.value)) = pairs := by
  refine ⟨fun es => ?_, exists_writings⟩
  rw [parse, write, String.toList_ofList, logicalLines, physicalLines_write, mapM_join]

end MessageCatalog.Properties
